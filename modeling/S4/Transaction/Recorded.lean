import S4.Transaction.Rules

/-!
# Transaction — What a sink says is on record

A `DirectS3Sink` keeps a copy of its operation.  When the copy says `COMMITTED`, so does the journal
(`DirectS3Sink.Honest`): the copy moves there only after a transition that the journal has
acknowledged, or is read from it.  Every call keeps this (`write_keeps`, `verifyOutput_keeps`,
`complete_keeps`, `abort_keeps`), with any failures and whatever else happens to the journal, which
never takes a commit back: its records only evolve (`records_evolve`).
-/

namespace S4.Transaction

open Lib Method
open Managed (Uuid Sha256)

variable {sink : DirectS3Sink} {operation : OperationRecord} {state : OperationState}
  {commit : Commit}

/-! ### The journal of the world -/

namespace World

/-- The journal records that the operation is committed. -/
def Committed (w : World) (id : Uuid) : Prop :=
  ∃ operation, w.record id = some operation ∧ operation.state = .committed

/-- Every record is filed under its own identifier. -/
def Named (w : World) : Prop := ∀ id operation, w.record id = some operation → operation.id = id

/-- The journal is left alone, or is the one after a call. -/
def Calls (w w' : World) : Prop :=
  w'.journal = w.journal ∨ ∃ now, ∃ c : JournalCall,
    (∀ operation ∈ c.inserts?, w.journal.operations.get? operation.id = none) ∧
      w'.journal = c.next now w.journal

end World

theorem Effect.Performs.calls {i : Agent} {e : Effect} {w w' : World} {r : Answer e}
    (h : Effect.Performs i e w r w') : w.Calls w' := by
  obtain ⟨-, hj | ⟨c, -, hnew, hj⟩⟩ := h.callsAt
  · exact .inl hj
  · exact .inr ⟨w.clock, c, hnew, hj⟩

theorem World.Drifts.calls {w w' : World} (h : w.Drifts w') : w.Calls w' := by
  obtain ⟨t, -, rfl⟩ | ⟨n, m, -, -, -, -, rfl⟩ := h <;> exact .inl rfl

namespace World

variable {w w' : World}

/-- No call takes a commit back. -/
theorem Calls.committed (h : w.Calls w') {id : Uuid} (hc : w.Committed id) : w'.Committed id := by
  obtain ⟨operation, ho, hs⟩ := hc
  obtain hj | ⟨now, c, hnew, hj⟩ := h
  · exact ⟨operation, by rw [record, hj]; exact ho, hs⟩
  · obtain ⟨operation', ho', -, hmoved⟩ := (JournalCall.next_advances hnew).moves id operation ho
    refine ⟨operation', by rw [record, hj]; exact ho', ?_⟩
    obtain rfl | hmoved := hmoved
    · exact hs
    · rw [hmoved.persists.terminal (by rw [hs]; rfl), hs]

theorem Calls.named (h : w.Calls w') (hw : w.Named) : w'.Named := by
  intro id operation' ho'
  obtain hj | ⟨now, c, hnew, hj⟩ := h
  · exact hw id operation' (by rw [record, hj] at ho'; exact ho')
  · have hadv : w.journal.Advances c.inserts? (c.next now w.journal) :=
      JournalCall.next_advances hnew
    rw [record, hj] at ho'
    cases ho : w.journal.operations.get? id with
    | none => exact (hadv.new id operation' ho' ho).2.1
    | some operation =>
      obtain ⟨op, hop, hid, -⟩ := hadv.moves id operation ho
      obtain rfl : op = operation' := Option.some.inj (hop.symm.trans ho')
      exact hid.trans (hw id operation ho)

end World

/-! ### A copy that the journal agrees with -/

/-- A discipline for effects on a journal whose records are filed under their names. -/
structure Records (D : Discipline Effect Answer World) : Prop where
  inv : ∀ w, D.inv w ↔ w.Named
  rely : ∀ w w', D.rely w w' → ∀ id, w.Committed id → w'.Committed id
  act : ∀ e w r w', D.act e w r w' → ∃ i, Effect.Performs i e w r w'
  guar : ∀ w w', w.Calls w' → D.guar w w'

namespace DirectS3Sink

/-- The sink's copy of the operation says `COMMITTED` only if the journal does. -/
def Honest (id : Uuid) (sink : DirectS3Sink) (w : World) : Prop :=
  sink.operation.id = id ∧ (sink.operation.state = .committed → w.Committed id)

theorem commitState_eq : sink.commitState = .committed ↔ sink.operation.state = .committed := by
  rw [commitState]
  cases sink.operation.state <;> simp

variable {w : World}

section Keeps

variable {D : Discipline Effect Answer World} {id : Uuid} {α : Type}

theorem Honest.setState (h : sink.Honest id w) (hs : state = .committed → w.Committed id) :
    (sink.setState state).Honest id w := ⟨h.1, hs⟩

theorem keeps_setState (hs : state ≠ .committed) :
    (modify (setState state) : TxMethod DirectS3Sink Unit).Keeps D (Honest id) :=
  keeps_modify fun _ _ h => h.setState fun h => absurd h hs

theorem journal_keeps {m : TxMethod DirectS3Sink (Except JournalError α)}
    (hm : m.Keeps D (Honest id)) : (journal m).Keeps D (Honest id) :=
  hm.bind fun _ => keeps_ofExcept _

theorem backend_keeps {m : TxMethod DirectS3Sink (Except BackendError α)}
    (hm : m.Keeps D (Honest id)) : (backend m).Keeps D (Honest id) :=
  hm.bind fun _ => keeps_ofExcept _

variable (hD : Records D)

include hD

theorem effect_keeps (e : Effect) :
    (Method.perform e : TxMethod DirectS3Sink (Answer e)).Keeps D (Honest id) := by
  refine keeps_perform (fun sink w w' hr _ h => ?_) fun sink w r w' hi ha h => ?_
  · exact ⟨h.1, fun hs => hD.rely w w' hr id (h.2 hs)⟩
  · obtain ⟨i, hp⟩ := hD.act e w r w' ha
    have hc := hp.calls
    exact ⟨⟨(hD.inv w').mpr (hc.named ((hD.inv w).mp hi)), hD.guar w w' hc⟩, h.1,
      fun hs => hc.committed (h.2 hs)⟩

theorem evidence_keeps (kind : String) (detail : List (String × String)) :
    (evidence kind detail).Keeps D (Honest id) :=
  keeps_get_bind fun _ => journal_keeps (effect_keeps hD _)

theorem recordLaunch_keeps : recordLaunch.Keeps D (Honest id) :=
  (effect_keeps hD _).bind fun _ => keeps_get_bind fun _ =>
    (journal_keeps (effect_keeps hD _)).bind fun _ => keeps_pure _

/-! ### Writing -/

theorem ensureMultipart_keeps : ensureMultipart.Keeps D (Honest id) := by
  refine keeps_get_bind fun sink => ?_
  split
  · exact keeps_pure _
  refine (evidence_keeps hD _ _).bind fun _ => (recordLaunch_keeps hD).bind fun _ =>
    (effect_keeps hD _).bind fun answer => ?_
  cases answer with
  | error => exact (evidence_keeps hD _ _).bind fun _ => keeps_throw _
  | ok =>
    refine (journal_keeps (effect_keeps hD _)).bind fun _ =>
      .bind (keeps_modify ?_) fun _ => evidence_keeps hD _ _
    exact fun sink w h => ⟨h.1, fun hs => by cases hs⟩

theorem uploadAttempts_keeps [Sha256] (uploadId : String) (partNumber : Nat)
    (body : Bytes) (remaining attempt : Nat) (prior : Bool) (lastError : Option BackendError) :
    (uploadAttempts uploadId partNumber body remaining attempt prior lastError).Keeps D
      (Honest id) := by
  induction remaining generalizing attempt prior lastError with
  | zero => exact keeps_throw _
  | succ remaining ih =>
    refine (evidence_keeps hD _ _).bind fun _ => (recordLaunch_keeps hD).bind fun _ =>
      keeps_get_bind fun sink => (effect_keeps hD _).bind fun answer => ?_
    cases answer with
    | ok =>
      exact (effect_keeps hD _).bind fun _ => (journal_keeps (effect_keeps hD _)).bind fun _ =>
        (evidence_keeps hD _ _).bind fun _ => keeps_modify fun _ _ h => h
    | error =>
      dsimp only
      split
      · exact keeps_throw _
      · exact ih _ _ _

theorem uploadBuffer_keeps [Sha256] (buffer : PartBuffer) :
    (uploadBuffer buffer).Keeps D (Honest id) := by
  refine .bind (keeps_modify fun _ _ h => h) fun _ => keeps_get_bind fun sink => ?_
  split
  · exact keeps_throw _
  · dsimp only
    split
    · exact keeps_throw _
    · exact uploadAttempts_keeps hD _ _ _ _ _ _ _

theorem writeLoop_keeps [Sha256] (buffer : PartBuffer) (chunk : Bytes) :
    (writeLoop buffer chunk).Keeps D (Honest id) := by
  induction buffer, chunk using writeLoop.induct with
  | case1 =>
    rw [writeLoop, dif_pos rfl]
    exact keeps_pure _
  | case2 buffer chunk hne ih₁ ih₂ ih₃ =>
    rw [writeLoop, dif_neg hne]
    refine .bind (keeps_modify fun _ _ h => h) fun _ => ?_
    split
    next hfull =>
      exact (ensureMultipart_keeps hD).bind fun _ => (uploadBuffer_keeps hD _).bind fun _ =>
        ih₁ hfull
    next hnot =>
      refine keeps_get_bind fun sink => ?_
      split
      next hup => exact (uploadBuffer_keeps hD _).bind fun _ => ih₂ sink hup
      next hup => exact ih₃ hnot sink hup

theorem write_keeps [Sha256] (chunk : Bytes) : (write chunk).Keeps D (Honest id) := by
  refine keeps_get_bind fun sink => ?_
  split
  · exact keeps_throw _
  split
  · exact keeps_throw _
  · exact .bind (keeps_modify fun _ _ h => h) fun _ => writeLoop_keeps hD _ _

theorem verifyOutput_keeps [Sha256] (size : Nat) (digest : String) :
    (verifyOutput size digest).Keeps D (Honest id) := by
  refine keeps_get_bind fun sink => ?_
  dsimp only
  split
  · exact keeps_throw _
  · exact .bind (keeps_modify fun _ _ h => h) fun _ =>
      (journal_keeps (effect_keeps hD _)).bind fun _ => keeps_modify fun _ _ h => h

/-! ### Reconciling -/

theorem discoverPages_keeps (operation : OperationRecord) (pages : Nat)
    (keyMarker uploadIdMarker : Option String) (found : List DiscoveredUpload) :
    (discoverPages operation pages keyMarker uploadIdMarker found :
      TxMethod DirectS3Sink _).Keeps D (Honest id) := by
  induction pages generalizing keyMarker uploadIdMarker found with
  | zero => exact (effect_keeps hD _).bind fun r => r.elim
  | succ pages ih =>
    refine (backend_keeps (effect_keeps hD _)).bind fun page => ?_
    dsimp only
    split
    · exact keeps_pure _
    · split
      · exact keeps_throw _
      · exact ih _ _ _

theorem deleteVersions_keeps (operation : OperationRecord)
    (versionId : Option String) (versions : List String) :
    (deleteVersions operation versionId versions : TxMethod DirectS3Sink Unit).Keeps D
      (Honest id) := by
  induction versions with
  | nil => exact keeps_pure _
  | cons superseded rest ih =>
    rw [deleteVersions]
    split
    · exact keeps_throw _
    · exact (backend_keeps (effect_keeps hD _)).bind fun _ => ih

theorem abortUploads_keeps (operation : OperationRecord) (uploads : List DiscoveredUpload) :
    (abortUploads operation uploads).Keeps D (Honest id) := by
  induction uploads with
  | nil => exact keeps_pure _
  | cons upload rest ih =>
    exact (evidence_keeps hD _ _).bind fun _ => (backend_keeps (effect_keeps hD _)).bind fun _ =>
      (evidence_keeps hD _ _).bind fun _ => ih

theorem abortDiscovered_keeps (pages : Nat) : (abortDiscovered pages).Keeps D (Honest id) :=
  keeps_get_bind fun _ => (discoverPages_keeps hD _ _ _ _ _).bind fun _ =>
    abortUploads_keeps hD _ _

theorem markCommitUnknown_keeps : markCommitUnknown.Keeps D (Honest id) :=
  keeps_get_bind fun _ => (journal_keeps (effect_keeps hD _)).bind fun _ =>
    (keeps_setState (by decide)).bind fun _ => evidence_keeps hD _ _

/-- A transition to `COMMITTED` that the journal has acknowledged is on record. -/
theorem transition_committed_honest {expected : OperationState}
    {committed : Option StoredObjectMeta} (h : sink.Honest id w) :
    (transition id expected .committed committed : TxMethod DirectS3Sink _).Safe D
      (fun r sink' w' => sink'.Honest id w' ∧ (r = .ok (.ok ()) → w'.Committed id)) sink w := by
  intro w₁ hr hi r w₂ ha
  obtain ⟨hkeep, hhonest⟩ := effect_keeps hD _ sink w h w₁ hr hi r w₂ ha
  refine ⟨hkeep, hhonest, fun hok => ?_⟩
  cases hok
  obtain ⟨i, hp⟩ := hD.act _ _ _ _ ha
  obtain ⟨_, operation, -, -, ho, hs, -⟩ := transition_ok hp
  exact ⟨operation, ho, hs⟩

/-- A record of the operation that says `COMMITTED` only if the journal does. -/
def Copies (id : Uuid) (operation : OperationRecord) (w : World) : Prop :=
  operation.id = id ∧ (operation.state = .committed → w.Committed id)

omit hD in
theorem settle_honest (hc : Copies id operation w) :
    (settle operation).Safe D (fun _ sink w => sink.Honest id w) sink w := by
  rw [settle, safe_bind, safe_modify]
  dsimp only
  split
  · split <;> exact hc
  · exact hc

theorem adoptCompletion_honest (hid : operation.id = id) (found : StoredObjectMeta)
    (h : sink.Honest id w) :
    (adoptCompletion operation found).Safe D (fun r sink' w' => sink'.Honest id w' ∧
      ∀ operation', r = .ok operation' → Copies id operation' w') sink w := by
  rw [adoptCompletion, safe_bind, safe_get]
  dsimp only
  refine (deleteVersions_keeps hD _ _ _).safe_bind h (fun _ sink w h => ?_)
    fun _ _ _ h => ⟨h, fun _ hr => by cases hr⟩
  refine (evidence_keeps hD _ _).safe_bind h (fun _ sink w h => ?_)
    fun _ _ _ h => ⟨h, fun _ hr => by cases hr⟩
  rw [hid, safe_bind, safe_journal]
  refine (transition_committed_honest hD h).mono fun r sink w ⟨h, hok⟩ => ?_
  obtain _ | _ | _ := r
  · exact ⟨h, fun _ hr => by cases hr⟩
  · exact ⟨h, fun _ hr => by cases hr⟩
  · refine ⟨h, fun operation' hr => ?_⟩
    cases hr
    exact ⟨rfl, fun _ => hok rfl⟩

theorem adoptAbsence_honest (hid : operation.id = id) (h : sink.Honest id w) :
    (adoptAbsence operation).Safe D (fun r sink' w' => sink'.Honest id w' ∧
      ∀ operation', r = .ok (some operation') → Copies id operation' w') sink w := by
  refine (effect_keeps hD _).safe_bind h (fun now sink w h => ?_)
    fun _ _ _ h => ⟨h, fun _ hr => by cases hr⟩
  refine (journal_keeps (effect_keeps hD _)).safe_bind h (fun confirmed sink w h => ?_)
    fun _ _ _ h => ⟨h, fun _ hr => by cases hr⟩
  split
  · refine (journal_keeps (effect_keeps hD _)).safe_bind h (fun _ sink w h => ⟨h, ?_⟩)
      fun _ _ _ h => ⟨h, fun _ hr => by cases hr⟩
    intro operation' hr
    cases hr
    exact ⟨hid, fun hs => by cases hs⟩
  · exact ⟨h, fun _ hr => by cases hr⟩

theorem probeUnknown_honest (hid : operation.id = id)
    (hs : operation.state ≠ .committed) (h : sink.Honest id w) :
    (probeUnknown operation).Safe D (fun _ sink w => sink.Honest id w) sink w := by
  have hcopy : ∀ w, Copies id operation w := fun w => ⟨hid, fun h => absurd h hs⟩
  refine (backend_keeps (effect_keeps hD _)).safe_bind h (fun probe sink w h => ?_)
    fun _ _ _ h => h
  cases probe with
  | committed found =>
    rw [safe_bind]
    refine (adoptCompletion_honest hD hid found h).mono fun r sink w ⟨h, hok⟩ => ?_
    cases r with
    | error => exact h
    | ok operation' => exact settle_honest (hok operation' rfl)
  | provenAbsentExact =>
    rw [safe_bind]
    refine (adoptAbsence_honest hD hid h).mono fun r sink w ⟨h, hok⟩ => ?_
    cases r with
    | error => exact h
    | ok settled =>
      cases settled with
      | none => exact hcopy w
      | some operation' => exact settle_honest (hok operation' rfl)
  | provenAbsent => exact settle_honest (hcopy w)
  | inconclusive => exact settle_honest (hcopy w)

/-- What is read from the journal says what the journal says. -/
theorem getOperation_honest (h : sink.Honest id w) :
    (getOperation id : TxMethod DirectS3Sink _).Safe D (fun r sink' w' => sink'.Honest id w' ∧
      ∀ operation, r = .ok (.ok (some operation)) → Copies id operation w') sink w := by
  intro w₁ hr hi r w₂ ha
  obtain ⟨hkeep, hhonest⟩ := effect_keeps hD _ sink w h w₁ hr hi r w₂ ha
  refine ⟨hkeep, hhonest, fun operation hok => ?_⟩
  cases hok
  obtain ⟨i, hp⟩ := hD.act _ _ _ _ ha
  obtain ⟨rfl, ho⟩ := World.Journals.of_ok hp
  have ho : w₁.record id = some operation := Except.ok.inj ho
  exact ⟨(hD.inv w₁).mp hi id operation ho, fun hs => ⟨operation, ho, hs⟩⟩

theorem reconcileCompletion_keeps : reconcileCompletion.Keeps D (Honest id) := by
  refine .get_bind fun sink w h => ?_
  rw [h.1, safe_bind, safe_journal]
  refine (getOperation_honest hD h).mono fun r sink w ⟨h, hok⟩ => ?_
  obtain _ | _ | operation := r
  · exact h
  · exact h
  cases operation with
  | none => exact h
  | some operation =>
    have hcopy := hok operation rfl
    dsimp only [Except.mapError]
    split
    · have hid : ({ operation with state := .commitUnknown } : OperationRecord).id = id := hcopy.1
      exact (journal_keeps (effect_keeps hD _)).safe_bind h
        (fun _ sink w h => probeUnknown_honest hD hid (by simp) h) fun _ _ _ h => h
    · split
      next hs => exact probeUnknown_honest hD hcopy.1 (by rw [hs]; decide) h
      · exact settle_honest hcopy

/-! ### Committing and aborting -/

theorem recordCommit_keeps (call : String) (attempt : Nat)
    (answer : StoredObjectMeta) : (recordCommit call attempt answer).Keeps D (Honest id) := by
  refine .get_bind fun sink w h => ?_
  rw [h.1]
  dsimp only
  refine (deleteVersions_keeps hD _ _ _).safe_bind h (fun _ sink w h => ?_) fun _ _ _ h => h
  rw [safe_bind]
  refine (transition_committed_honest hD h).mono fun r sink w ⟨h, hok⟩ => ?_
  obtain _ | error | _ := r
  · exact h
  · -- the transition may have happened: the journal is asked
    refine (reconcileCompletion_keeps hD).attempt.safe_bind h (fun recovered sink w h => ?_)
      fun _ _ _ h => h
    split <;> exact h
  · refine safe_bind.mpr (safe_modify.mpr ?_)
    exact (evidence_keeps hD _ _).attempt.safe_bind (h.setState fun _ => hok rfl)
      (fun _ _ _ h => (evidence_keeps hD _ _).attempt.safe_bind h (fun _ _ _ h => h)
        fun _ _ _ h => h) fun _ _ _ h => h

theorem recordRefusal_keeps (hcleanup : commit.cleanup.Keeps D (Honest id)) (error : BackendError) :
    (recordRefusal commit error).Keeps D (Honest id) :=
  hcleanup.bind fun _ => keeps_get_bind fun _ =>
    (journal_keeps (effect_keeps hD _)).bind fun _ =>
    .bind (keeps_modify fun _ _ h => ⟨h.1, fun hs => by cases hs⟩) fun _ =>
      keeps_throw _

theorem commitAttempts_keeps
    (hlaunch : ∀ operation notBefore, (commit.launch operation notBefore).Keeps D (Honest id))
    (hcleanup : commit.cleanup.Keeps D (Honest id)) (remaining attempt : Nat) (prior : Bool)
    (lastError : Option BackendError) :
    (commitAttempts commit remaining attempt prior lastError).Keeps D (Honest id) := by
  induction remaining generalizing attempt prior lastError with
  | zero =>
    refine (markCommitUnknown_keeps hD).bind fun _ => (reconcileCompletion_keeps hD).bind
      fun recovered => ?_
    cases recovered with
    | some => exact keeps_pure _
    | none => exact keeps_throw _
  | succ remaining ih =>
    refine (evidence_keeps hD _ _).bind fun _ => (recordLaunch_keeps hD).bind fun _ =>
      keeps_get_bind fun _ => (hlaunch _ _).bind fun _ =>
      (effect_keeps hD _).bind fun answer => ?_
    cases answer with
    | ok => exact recordCommit_keeps hD _ _ _
    | error error =>
      refine (evidence_keeps hD _ _).attempt.bind fun _ => ?_
      split
      · exact recordRefusal_keeps hD hcleanup error
      · exact ih _ _ _

theorem completeSinglePut_keeps [Sha256] : completeSinglePut.Keeps D (Honest id) :=
  keeps_get_bind fun _ => (journal_keeps (effect_keeps hD _)).bind fun _ =>
    (keeps_setState (by decide)).bind fun _ => (journal_keeps (effect_keeps hD _)).bind fun _ =>
    .bind (keeps_modify fun _ _ h => ⟨h.1, fun hs => by cases hs⟩) fun _ =>
    commitAttempts_keeps hD (fun _ _ => effect_keeps hD _) (keeps_pure _) _ _ _ _

theorem completeMultipart_keeps [Sha256] (pages : Nat) (uploadId : String) :
    (completeMultipart pages uploadId).Keeps D (Honest id) := by
  have hrest : (do
      journal (transition (← get).operation.id .open .completing none)
      modify (setState .completing)
      let sink ← get
      commitAttempts (multipartCommit pages uploadId sink.parts) sink.maxAttempts 1 false none :
        TxMethod DirectS3Sink StoredObjectMeta).Keeps D (Honest id) := by
    refine keeps_get_bind fun _ => (journal_keeps (effect_keeps hD _)).bind fun _ =>
      (keeps_setState (by decide)).bind fun _ => keeps_get_bind fun sink =>
      commitAttempts_keeps hD (fun _ _ => effect_keeps hD _) ?_ _ _ _ _
    exact keeps_get_bind fun _ => (backend_keeps (effect_keeps hD _)).bind fun _ =>
      abortDiscovered_keeps hD pages
  refine keeps_get_bind fun sink => ?_
  dsimp only
  split
  · exact (uploadBuffer_keeps hD _).bind fun _ => hrest
  · exact hrest

theorem complete_keeps [Sha256] (pages : Nat) : (complete pages).Keeps D (Honest id) := by
  have hrest : ∀ stored : StoredObjectMeta, (do
      modify ({ · with finished := true })
      return stored : TxMethod DirectS3Sink StoredObjectMeta).Keeps D (Honest id) :=
    fun stored => .bind (keeps_modify fun _ _ h => h) fun _ => keeps_pure _
  refine keeps_get_bind fun sink => ?_
  split
  · exact keeps_throw _
  split
  · exact keeps_throw _
  dsimp only
  split
  · exact (completeMultipart_keeps hD pages _).bind hrest
  · exact (completeSinglePut_keeps hD).bind hrest

theorem abortOpen_keeps (pages : Nat) : (abortOpen pages).Keeps D (Honest id) := by
  refine (keeps_setState (by decide)).bind fun _ => keeps_get_bind fun sink => ?_
  have hrest : (do
      abortDiscovered pages
      journal (transition sink.operation.id .aborting .provenAborted none)
      modify fun sink => { sink.setState .provenAborted with finished := true } :
        TxMethod DirectS3Sink Unit).Keeps D (Honest id) :=
    (abortDiscovered_keeps hD pages).bind fun _ => (journal_keeps (effect_keeps hD _)).bind fun _ =>
      keeps_modify fun _ _ h => ⟨h.1, fun hs => by cases hs⟩
  dsimp only
  split
  · exact (evidence_keeps hD _ _).bind fun _ => (backend_keeps (effect_keeps hD _)).bind fun _ =>
      (evidence_keeps hD _ _).bind fun _ => hrest
  · exact hrest

theorem abort_keeps (pages : Nat) : (abort pages).Keeps D (Honest id) := by
  refine keeps_get_bind fun sink => ?_
  split
  · exact keeps_pure _
  cases sink.operation.state with
  | intent | «open» =>
    exact (journal_keeps (effect_keeps hD _)).bind fun _ => abortOpen_keeps hD pages
  | aborting => exact abortOpen_keeps hD pages
  | completing => exact keeps_throw _
  | commitUnknown => exact keeps_throw _
  | committed => exact keeps_modify fun _ _ h => h
  | provenAborted => exact keeps_modify fun _ _ h => h

end Keeps

end DirectS3Sink

/-! ### Records over whole runs -/

section Runs

variable {id : Uuid} {op : OperationRecord}

/-- The record is still there, further along its state machine. -/
def World.Evolved (w : World) (id : Uuid) (op : OperationRecord) : Prop :=
  ∃ op', w.record id = some op' ∧ Relation.ReflTransGen OperationRecord.Evolves op op'

theorem World.Calls.evolved {w w' : World} (h : w.Calls w') (hw : w.Evolved id op) :
    w'.Evolved id op := by
  obtain ⟨op₁, h₁, hop⟩ := hw
  obtain hj | ⟨now, c, hnew, hj⟩ := h
  · exact ⟨op₁, by rwa [record, hj], hop⟩
  obtain ⟨op₂, h₂, hid, hmoved⟩ := (JournalCall.next_advances hnew).moves id op₁ h₁
  refine ⟨op₂, by rwa [record, hj], hop.tail ⟨hid, ?_, fun t => Journal.notBefore_next hnew h₁ h₂⟩⟩
  obtain rfl | hmoved := hmoved
  · exact .inl rfl
  cases hmoved with
  | keep hs | expect _ hs => exact .inl hs
  | «open» hs hs' => exact .inr (by rw [hs, hs']; rfl)
  | transition hs => exact .inr hs

/-- **In every run of writers and reconcilers, every record only evolves**: it is never lost, and
goes step by step along its state machine with a fence that never moves back. -/
theorem records_evolve [Sha256] {c c' : transactionSystem.Config}
    (r : Reach (· = c) transactionSystem.Step c') (h : c.world.record id = some op) :
    c'.world.Evolved id op := by
  refine AgentSystem.world_invariant (I := (World.Evolved · id op)) ?_ ?_ ?_
    (AgentSystem.reach_effectsMeet r)
  · rintro _ rfl
    exact ⟨op, h, .refl⟩
  · exact fun _ _ _ _ _ hp _ => (Effect.Performs.calls hp).evolved
  · exact fun _ _ hd => (World.Drifts.calls hd).evolved

/-- The writer of an operation begins to abort it. -/
theorem abort_evolves : ∃ (_ : Sha256) (c c' : transactionSystem.Config) (op : OperationRecord),
    Reach (· = c) transactionSystem.Step c' ∧ c.world.record ⟨7⟩ = some op ∧
      c'.world.Evolved ⟨7⟩ op := by
  let op : OperationRecord := .intent ⟨7⟩ 1 ⟨"a", "b", "k", "k"⟩ ⟨none, none, []⟩
  let journal : Journal := ⟨(∅ : KeyMap _ _).insert ⟨7⟩ op, ∅, []⟩
  let _ : Sha256 := ⟨fun _ => []⟩
  let c : transactionSystem.Config := ⟨⟨journal, 1, [], [], fun _ _ => none, []⟩,
    Agent.rec (fun _ => .idle (some (.new op 1 true))) fun _ => .idle ⟨"r", true⟩, fun _ => []⟩
  have r := (Reach.init rfl : Reach (· = c) transactionSystem.Step c).step
    (.start (i := .writer ⟨7⟩) (WriterOp.abort 1) rfl)
  have r := r.step (e := .act (.writer ⟨7⟩) (.transition ⟨7⟩ .intent .aborting none))
    (.act rfl (by exact .inl ⟨rfl, .inl rfl⟩))
  exact ⟨_, c, _, op, r, rfl, records_evolve r rfl⟩

end Runs

end S4.Transaction
