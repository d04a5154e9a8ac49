import S4.Lib.Reach
import S4.Transaction.Journal

/-!
# Transaction — The journal over time

Any number of callers use the journal without coordination, one call at a time.  What one call may
do to a record is said once (`OperationRecord.Moves`): it leaves state, output and metadata alone,
opens the operation, sets what it expects to write, or moves it along the state machine.  The rest
follows for whole histories: terminal states are final, the metadata belongs to `COMMITTED`, what is
expected is settled once the operation has left `INTENT` and `OPEN`, and recorded parts stay.
-/

namespace S4.Transaction

open Lib Journal KeyMap
open Managed (Uuid)

/-! ### Calls -/

/-- The calls that may change the journal. -/
inductive JournalCall where
  | insertIntent (operation : OperationRecord)
  | setOpen (id : Uuid) (uploadId : Option String)
  | setExpected (id : Uuid) (expected : ExpectedObject)
  | transition (id : Uuid) (expected next : OperationState) (committed : Option StoredObjectMeta)
  | recordPart (part : PartRecord)
  | appendEvidence (record : EvidenceRecord)
  | recordMutationLaunch (id : Uuid) (notBefore : Int)
  | confirmExactAbsence (id : Uuid) (observedAt minimumSeparation : Int)
  | claimReconcilable (owner : String) (staleBefore leaseUntil : Int) (limit : Nat)
  | claimReconcilableOperation (id : Uuid) (owner : String) (staleBefore leaseUntil : Int)

/-- The journal after a call. -/
def JournalCall.next (now : Int) (j : Journal) : JournalCall → Journal
  | .insertIntent operation => (j.insertIntent operation).2
  | .setOpen id uploadId => (j.setOpen now id uploadId).2
  | .setExpected id expected => (j.setExpected now id expected).2
  | .transition id expected next committed => (j.transition now id expected next committed).2
  | .recordPart part => (j.recordPart part).2
  | .appendEvidence record => (j.appendEvidence record).2
  | .recordMutationLaunch id notBefore => (j.recordMutationLaunch now id notBefore).2
  | .confirmExactAbsence id observedAt separation =>
    (j.confirmExactAbsence now id observedAt separation).2
  | .claimReconcilable owner staleBefore leaseUntil limit =>
    (j.claimReconcilable now owner staleBefore leaseUntil limit).2
  | .claimReconcilableOperation id owner staleBefore leaseUntil =>
    (j.claimReconcilableOperation now id owner staleBefore leaseUntil).2

/-- The operation that a call inserts. -/
def JournalCall.inserts? : JournalCall → Option OperationRecord
  | .insertIntent operation => some operation
  | _ => none

/-- The steps of the journal, with the clock of the call: an operation is inserted once, and as a
new intent, which has no metadata. -/
inductive JournalStep : Journal → Int × JournalCall → Journal → Prop where
  | call {j : Journal} (now : Int) (c : JournalCall)
      (hnew : ∀ operation ∈ c.inserts?, j.operations.get? operation.id = none ∧
        operation.committed = none) :
      JournalStep j (now, c) (c.next now j)

def Journal.new : Journal := ⟨∅, ∅, []⟩

def JournalInit (j : Journal) : Prop := j = .new

/-! ### What one call does to a record -/

/-- One call's change of a record. -/
inductive OperationRecord.Moves (op op' : OperationRecord) : Prop where
  | keep (hs : op'.state = op.state) (he : op'.expected = op.expected)
      (hc : op'.committed = op.committed)
  | open (hs : op.state = .intent) (hs' : op'.state = .open) (hc : op'.committed = op.committed)
  | expect (hs : op.state = .intent ∨ op.state = .open) (hs' : op'.state = op.state)
      (hc : op'.committed = op.committed)
  | transition (hs : op.state.canTransitionTo op'.state = true) (he : op'.expected = op.expected)
      (hc : op'.committed.isSome = (op'.state == .committed))

/-- The metadata is there exactly in the state `COMMITTED`. -/
def OperationRecord.WellFormed (op : OperationRecord) : Prop :=
  op.committed.isSome = true ↔ op.state = .committed

variable {op op' : OperationRecord} {j' : Journal} {id : Uuid} {e : Int × JournalCall}
  {owner : String} {staleBefore leaseUntil : Int} {j : Journal} {id : Uuid}

theorem OperationRecord.Moves.wellFormed (h : op.Moves op')
    (hop : op.WellFormed) : op'.WellFormed := by
  simp only [OperationRecord.WellFormed] at hop ⊢
  cases h with
  | keep hs _ hc => rw [hs, hc, hop]
  | «open» hs hs' hc =>
    rw [hs', hc, hop, hs]
    simp
  | expect _ hs' hc => rw [hs', hc, hop]
  | transition _ _ hc =>
    rw [hc]
    simp

/-- What is settled stays settled. -/
structure OperationRecord.Persists (op op' : OperationRecord) : Prop where
  terminal : op.state.isTerminal = true → op'.state = op.state
  committed : op.state = .committed → op'.committed = op.committed
  expected : op.state ≠ .intent → op.state ≠ .open →
    op'.expected = op.expected ∧ op'.state ≠ .intent ∧ op'.state ≠ .open

theorem OperationRecord.Persists.refl (op : OperationRecord) : op.Persists op :=
  ⟨fun _ => rfl, fun _ => rfl, fun hi ho => ⟨rfl, hi, ho⟩⟩

theorem OperationRecord.Persists.trans {op₁ op₂ op₃ : OperationRecord} (h : op₁.Persists op₂)
    (h' : op₂.Persists op₃) : op₁.Persists op₃ where
  terminal ht := by
    have hs := h.terminal ht
    rw [h'.terminal (hs ▸ ht), hs]
  committed hc := by
    have hs := h.terminal (by rw [hc]; rfl)
    rw [h'.committed (hs.trans hc), h.committed hc]
  expected hi ho := by
    obtain ⟨he, hi', ho'⟩ := h.expected hi ho
    obtain ⟨he', hi'', ho''⟩ := h'.expected hi' ho'
    exact ⟨he'.trans he, hi'', ho''⟩

theorem OperationState.not_terminal_of_canTransitionTo {a b : OperationState}
    (h : a.canTransitionTo b = true) :
    a.isTerminal = false ∧ (a ≠ .intent → a ≠ .open → b ≠ .intent ∧ b ≠ .open) := by
  revert h
  cases a <;> cases b <;> decide

theorem OperationRecord.Moves.persists (h : op.Moves op') : op.Persists op' := by
  cases h with
  | keep hs he hc => exact ⟨fun _ => hs, fun _ => hc, fun hi ho => ⟨he, hs ▸ hi, hs ▸ ho⟩⟩
  | «open» hs =>
    -- a record in `INTENT` has nothing settled yet
    refine ⟨fun ht => ?_, fun hc => ?_, fun hi => absurd hs hi⟩
    · rw [hs] at ht
      cases ht
    · rw [hs] at hc
      cases hc
  | expect hs hs' hc =>
    refine ⟨fun _ => hs', fun _ => hc, fun hi ho => ?_⟩
    exact (hs.elim hi ho).elim
  | transition hs he =>
    obtain ⟨hterminal, hleft⟩ := OperationState.not_terminal_of_canTransitionTo hs
    refine ⟨fun ht => ?_, fun hcom => ?_, fun hi ho => ⟨he, hleft hi ho⟩⟩
    · rw [hterminal] at ht
      cases ht
    · rw [hcom] at hterminal
      cases hterminal

/-! ### What one call does to the journal -/

/-- Every record moves, no record goes, no part changes; a new record is the one that is inserted.
-/
structure Journal.Advances (inserted : Option OperationRecord) (j j' : Journal) : Prop where
  moves : ∀ id op, j.operations.get? id = some op →
    ∃ op', j'.operations.get? id = some op' ∧ op'.id = op.id ∧ (op' = op ∨ op.Moves op')
  new : ∀ id op', j'.operations.get? id = some op' → j.operations.get? id = none →
    inserted = some op' ∧ op'.id = id ∧ op'.state = .intent
  parts : ∀ key part, j.parts.get? key = some part → j'.parts.get? key = some part

namespace Journal

variable {j : Journal} {now : Int} {inserted : Option OperationRecord}

theorem Advances.of_operations_eq (ho : j'.operations = j.operations)
    (hp : ∀ key part, j.parts.get? key = some part → j'.parts.get? key = some part) :
    Advances inserted j j' where
  moves id op h := ⟨op, ho ▸ h, rfl, .inl rfl⟩
  new id op' h h' := by
    rw [ho, h'] at h
    cases h
  parts := hp

theorem Advances.refl (j : Journal) : Advances inserted j j :=
  .of_operations_eq rfl fun _ _ h => h

/-- A call on one record advances the journal if the record moves. -/
theorem update_advances {α : Type} {f : OperationRecord → Except JournalError (α × OperationRecord)}
    (hf : ∀ op a op', f op = .ok (a, op') → op'.id = op.id ∧ (op' = op ∨ op.Moves op')) :
    Advances inserted j (j.update id f).2 := by
  rw [update]
  split
  · exact .refl j
  next op hop =>
  split
  · exact .refl j
  next a op' hok =>
  refine ⟨fun k opk hk => ?_, fun k opk' hk hnone => ?_, fun _ _ h => h⟩
  · simp only [get?_insert]
    split
    next he =>
      subst he
      cases hop.symm.trans hk
      exact ⟨op', rfl, hf op a op' hok⟩
    · exact ⟨opk, hk, rfl, .inl rfl⟩
  · obtain ⟨rfl, -⟩ | ⟨-, hk⟩ := get?_insert_cases hk
    · cases hop.symm.trans hnone
    · cases hk.symm.trans hnone

theorem setOpen_advances {uploadId : Option String} :
    Advances none j (j.setOpen now id uploadId).2 := by
  refine update_advances fun op a op' h => ?_
  rw [openRecord] at h
  split at h
  · cases h
  next hs =>
  cases h
  exact ⟨rfl, .inr (.open (not_ne_iff.mp hs) rfl rfl)⟩

theorem setExpected_advances {expected : ExpectedObject} :
    Advances none j (j.setExpected now id expected).2 := by
  refine update_advances fun op a op' h => ?_
  rw [expectRecord] at h
  split at h
  · cases h
  next hs =>
  cases h
  exact ⟨rfl, .inr (.expect (by tauto) rfl rfl)⟩

theorem transition_advances {expected next : OperationState}
    {committed : Option StoredObjectMeta} :
    Advances none j (j.transition now id expected next committed).2 := by
  rw [transition]
  split
  · exact .refl j
  next hcan =>
  split
  · exact .refl j
  next hmeta =>
  refine update_advances fun op a op' h => ?_
  rw [moveRecord] at h
  split at h
  · cases h
  next hs =>
  cases h
  obtain rfl := not_ne_iff.mp hs
  exact ⟨rfl, .inr (.transition (by simpa using hcan) rfl (not_ne_iff.mp hmeta).symm)⟩

theorem recordMutationLaunch_advances {notBefore : Int} :
    Advances none j (j.recordMutationLaunch now id notBefore).2 := by
  refine update_advances fun op a op' h => ?_
  rw [launchRecord] at h
  split at h
  · cases h
  · cases h
    exact ⟨rfl, .inr (.keep rfl rfl rfl)⟩

theorem confirmExactAbsence_advances {observedAt separation : Int} :
    Advances none j (j.confirmExactAbsence now id observedAt separation).2 := by
  refine update_advances fun op a op' h => ?_
  rw [absenceRecord] at h
  split at h
  · cases h
    exact ⟨rfl, .inr (.keep rfl rfl rfl)⟩
  · split at h
    · cases h
      exact ⟨rfl, .inr (.keep rfl rfl rfl)⟩
    · cases h
      exact ⟨rfl, .inr (.keep rfl rfl rfl)⟩

theorem claimReconcilableOperation_advances :
    Advances none j (j.claimReconcilableOperation now id owner staleBefore leaseUntil).2 := by
  rw [claimReconcilableOperation]
  split
  · refine update_advances fun op a op' h => ?_
    rw [claimRecord] at h
    split at h
    · cases h
      exact ⟨rfl, .inr (.keep rfl rfl rfl)⟩
    · cases h
      exact ⟨rfl, .inr (.keep rfl rfl rfl)⟩
  · exact .refl j

/-- Claiming changes the leases of the claimed records and nothing else. -/
theorem claimAll_get? (owner : String) (leaseUntil : Int)
    (operations : KeyMap Uuid OperationRecord) (ids : List Uuid) (id : Uuid) :
    (claimAll owner leaseUntil operations ids).2.get? id =
      (operations.get? id).map fun op =>
        if id ∈ ids then { op with leaseOwner := some owner, leaseExpiresAtMs := some leaseUntil }
        else op := by
  induction ids generalizing operations with
  | nil => simp [claimAll]
  | cons k rest ih =>
    rw [claimAll]
    split
    next hk =>
      rw [ih]
      by_cases h : id = k
      · subst h
        rw [hk]
        rfl
      · simp [h]
    next op hk =>
    simp only [ih, get?_insert]
    by_cases h : id = k
    · subst h
      simp [hk]
    · simp [h]

theorem claimReconcilable_advances {limit : Nat} :
    Advances none j (j.claimReconcilable now owner staleBefore leaseUntil limit).2 := by
  refine ⟨fun id op h => ?_, fun id op' h hnone => ?_, fun _ _ h => h⟩
  · simp only [claimReconcilable, claimAll_get?, h, Option.map_some]
    refine ⟨_, rfl, ?_⟩
    split
    · exact ⟨rfl, .inr (.keep rfl rfl rfl)⟩
    · exact ⟨rfl, .inl rfl⟩
  · simp only [claimReconcilable, claimAll_get?, hnone] at h
    cases h

theorem recordPart_advances {part : PartRecord} : Advances none j (j.recordPart part).2 := by
  refine .of_operations_eq ?_ ?_
  · rw [recordPart]
    split
    · split <;> rfl
    · rfl
  · intro key p hp
    rw [recordPart]
    split
    · split <;> exact hp
    next hnone =>
    rw [get?_insert_ne]
    · exact hp
    · rintro rfl
      cases hp.symm.trans hnone

theorem appendEvidence_advances {record : EvidenceRecord} :
    Advances none j (j.appendEvidence record).2 := by
  rw [appendEvidence]
  split
  · split <;> exact .refl j
  · exact .of_operations_eq rfl fun _ _ h => h

theorem insertIntent_advances {operation : OperationRecord}
    (hnew : j.operations.get? operation.id = none) :
    Advances (some operation) j (j.insertIntent operation).2 := by
  rw [insertIntent]
  split
  · exact .refl j
  next hs =>
  have hadv : Advances (some operation) j
      { j with operations := j.operations.insert operation.id operation } := by
    refine ⟨fun id op h => ⟨op, ?_, rfl, .inl rfl⟩, fun id op' h hnone => ?_, fun _ _ h => h⟩
    · rw [get?_insert_ne]
      · exact h
      · rintro rfl
        cases h.symm.trans hnew
    · obtain ⟨rfl, rfl⟩ | ⟨-, h⟩ := get?_insert_cases h
      · exact ⟨rfl, rfl, not_ne_iff.mp hs⟩
      · cases h.symm.trans hnone
  split <;> exact hadv

end Journal

/-- **Every call advances the journal**, if what it inserts is new. -/
theorem JournalCall.next_advances {now : Int} {c : JournalCall}
    (hnew : ∀ operation ∈ c.inserts?, j.operations.get? operation.id = none) :
    j.Advances c.inserts? (c.next now j) := by
  cases c with
  | insertIntent operation => exact insertIntent_advances (hnew operation rfl)
  | setOpen => exact setOpen_advances
  | setExpected => exact setExpected_advances
  | transition =>
    exact transition_advances
  | recordPart => exact recordPart_advances
  | appendEvidence => exact appendEvidence_advances
  | recordMutationLaunch => exact recordMutationLaunch_advances
  | confirmExactAbsence =>
    exact confirmExactAbsence_advances
  | claimReconcilable =>
    exact claimReconcilable_advances
  | claimReconcilableOperation =>
    exact claimReconcilableOperation_advances

/-- No call moves the fence of a record back. -/
theorem Journal.notBefore_next {now t : Int} {c : JournalCall}
    (hnew : ∀ operation ∈ c.inserts?, j.operations.get? operation.id = none)
    (h : j.operations.get? id = some op) (h' : (c.next now j).operations.get? id = some op')
    (ht : op.mutationNotBeforeMs = some t) : ∃ t', op'.mutationNotBeforeMs = some t' ∧ t ≤ t' := by
  cases c with
  | claimReconcilable =>
    simp only [JournalCall.next, claimReconcilable, claimAll_get?, h] at h'
    grind
  | insertIntent => grind [JournalCall.next, insertIntent, JournalCall.inserts?, get?_insert]
  | _ =>
    grind [JournalCall.next, setOpen, setExpected, transition, recordPart, appendEvidence,
      recordMutationLaunch, confirmExactAbsence, claimReconcilableOperation, update, openRecord,
      expectRecord, moveRecord, launchRecord, absenceRecord, claimRecord, get?_insert]

theorem JournalStep.wellFormed_new (h : JournalStep j e j')
    (h' : j'.operations.get? id = some op)
    (hnone : j.operations.get? id = none) : op.WellFormed := by
  cases h with
  | call now c hnew =>
    obtain ⟨hi, -, hs⟩ := (JournalCall.next_advances fun o ho => (hnew o ho).1).new id op h' hnone
    simp [OperationRecord.WellFormed, (hnew op hi).2, hs]

theorem JournalStep.advances (h : JournalStep j e j') :
    j.Advances e.2.inserts? j' := by
  cases h with
  | call now c hnew => exact JournalCall.next_advances fun o ho => (hnew o ho).1

/-! ### Whole histories -/

theorem wellFormed_of_reach (r : Reach JournalInit JournalStep j)
    (h : j.operations.get? id = some op) : op.WellFormed := by
  induction r generalizing op with
  | init hi =>
    cases hi
    simp [new] at h
  | @step j j' e r hs ih =>
    cases ho : j.operations.get? id with
    | none => exact hs.wellFormed_new h ho
    | some old =>
      obtain ⟨op', h', -, hop⟩ := hs.advances.moves id old ho
      cases h.symm.trans h'
      obtain rfl | hop := hop
      · exact ih ho
      · exact hop.wellFormed (ih ho)

/-- From one journal to a later one, records persist and parts stay. -/
theorem persists_of_reach (r : Reach (· = j) JournalStep j') :
    (∀ id op, j.operations.get? id = some op →
      ∃ op', j'.operations.get? id = some op' ∧ op.Persists op') ∧
    ∀ key part, j.parts.get? key = some part → j'.parts.get? key = some part := by
  induction r with
  | init hi =>
    subst hi
    exact ⟨fun id op h => ⟨op, h, .refl op⟩, fun _ _ h => h⟩
  | step _ hs ih =>
    obtain ⟨hmoves, -, hparts⟩ := hs.advances
    refine ⟨fun id op h => ?_, fun key part h => hparts key part (ih.2 key part h)⟩
    obtain ⟨op₁, h₁, hp₁⟩ := ih.1 id op h
    obtain ⟨op₂, h₂, -, hop⟩ := hmoves id op₁ h₁
    refine ⟨op₂, h₂, hp₁.trans ?_⟩
    obtain rfl | hop := hop
    · exact .refl _
    · exact hop.persists

/-- **What the journal has settled is final.**  Between any journal that a run reaches and any later
one: a terminal state does not change; the metadata of an operation is there exactly when it is
`COMMITTED`, and then does not change; what is expected does not change once the operation has left
`INTENT` and `OPEN`; and a recorded part is not altered. -/
theorem journal_settled {j' : Journal} (r : Reach JournalInit JournalStep j)
    (r' : Reach (· = j) JournalStep j') :
    (∀ id op, j.operations.get? id = some op →
      (op.committed.isSome = true ↔ op.state = .committed) ∧
      ∃ op', j'.operations.get? id = some op' ∧
        (op.state = .committed ∨ op.state = .provenAborted → op'.state = op.state) ∧
        (op.state = .committed → op'.committed = op.committed) ∧
        (op.state ≠ .intent → op.state ≠ .open → op'.expected = op.expected)) ∧
    ∀ key part, j.parts.get? key = some part → j'.parts.get? key = some part := by
  obtain ⟨hrecords, hparts⟩ := persists_of_reach r'
  refine ⟨fun id op h => ⟨wellFormed_of_reach r h, ?_⟩, hparts⟩
  obtain ⟨op', h', hp⟩ := hrecords id op h
  refine ⟨op', h', fun hs => hp.terminal ?_, hp.committed, fun hi ho => (hp.expected hi ho).1⟩
  obtain hs | hs := hs <;> rw [hs] <;> rfl

/-! ### A concrete history -/

def Journal.runCalls (j : Journal) (calls : List (Int × JournalCall)) : Journal :=
  calls.foldl (fun j (now, c) => c.next now j) j

/-- Every inserted operation is a new intent. -/
def Journal.insertsNew (j : Journal) (calls : List (Int × JournalCall)) : Bool :=
  plays (fun j (now, c) => c.next now j) (fun j (_, c) => c.inserts?.all fun operation =>
    !j.operations.contains operation.id && operation.committed.isNone) j calls

theorem Journal.reach_runCalls {Init : Journal → Prop}
    {calls : List (Int × JournalCall)} (r : Reach Init JournalStep j)
    (h : j.insertsNew calls = true) : Reach Init JournalStep (j.runCalls calls) := by
  refine r.script h fun j (now, c) _ hx => ⟨_, .call now c fun operation ho => ?_⟩
  simp only [Option.mem_def.mp ho, Option.all_some, Bool.and_eq_true] at hx
  simpa [contains] using hx

/-- An operation that is opened, completed and committed. -/
def commitCalls : List (Int × JournalCall) :=
  [(1, .insertIntent (.intent ⟨7⟩ 1 ⟨"backend", "bucket", "key", "key"⟩ ⟨none, none, []⟩)),
    (2, .setOpen ⟨7⟩ (some "upload")), (3, .transition ⟨7⟩ .open .completing none),
    (4, .transition ⟨7⟩ .completing .committed (some ⟨some "etag", none, [], true⟩))]

/-- Callers that come too late. -/
def lateCalls : List (Int × JournalCall) :=
  [(5, .transition ⟨7⟩ .committed .provenAborted none), (6, .setOpen ⟨7⟩ none),
    (7, .setExpected ⟨7⟩ ⟨some "digest", some 3, []⟩),
    (8, .claimReconcilable "reconciler" 10 20 5)]

theorem commit_settled :
    ∃ op op', (new.runCalls commitCalls).operations.get? ⟨7⟩ = some op ∧
      op.state = .committed ∧
      ((new.runCalls commitCalls).runCalls lateCalls).operations.get? ⟨7⟩ = some op' ∧
      op'.state = op.state ∧ op'.committed = op.committed ∧ op'.expected = op.expected := by
  have r : Reach JournalInit JournalStep (new.runCalls commitCalls) :=
    reach_runCalls (.init rfl) (by decide +kernel)
  have r' : Reach (· = new.runCalls commitCalls) JournalStep
      ((new.runCalls commitCalls).runCalls lateCalls) :=
    reach_runCalls (.init rfl) (by decide +kernel)
  obtain ⟨op, hop, hs⟩ : ∃ op, (new.runCalls commitCalls).operations.get? ⟨7⟩ = some op ∧
      op.state = .committed := by
    refine ⟨_, rfl, ?_⟩
    decide +kernel
  obtain ⟨-, op', hop', hstate, hmeta, hexpected⟩ := (journal_settled r r').1 ⟨7⟩ op hop
  exact ⟨op, op', hop, hs, hop', hstate (.inl hs), hmeta hs,
    hexpected (by simp [hs]) (by simp [hs])⟩

end S4.Transaction
