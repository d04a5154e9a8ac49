import S4.Managed.Accounts
import S4.Managed.Sinks

/-!
# Managed — LogicalSink

After an `abort` that returned `Ok`, with no `complete` that did, is the put settled and the
workspace's mutation slot free (`AbortFrees`)?  The sink runs over a repository that others use at
the same time, and any call may fail, with or without its effect (`SinkEffect.Performs`).

Once the usage evidence is recorded the operation is `Completing`, and `abort` returns `Ok` without
proving the abort: nothing has settled the operation, and it still holds the slot
(`abort_keeps_slot`).  `SettledOnAbort` rules that out: an abort after the usage record finds the
operation settled.  In every run of such steps an abort frees the slot (`abortFrees_of_guarded`).
-/

namespace S4.Managed

open Lib Method
open Transaction (Bytes StoredObjectMeta TransactionError)

variable {id : Uuid} {s' : MemoryState} {op op' : SinkOp} {r : Except TransactionError Unit}
  {c : Call}
  {R : Except TransactionError (Except ManagedError Unit) → ManagedLogicalSink → MemoryState → Prop}
  {s : MemoryState}

/-- The calls on a logical sink. -/
inductive SinkOp where
  | write (chunk : Bytes)
  | verifyOutput (expectedSize : Nat) (expectedSha256 : String)
  | recordUsageEvidence (event : UsageEvent)
  | complete
  | abort
deriving DecidableEq

section System

variable [Sha256]

def SinkOp.run : SinkOp → SinkMethod ManagedLogicalSink Unit
  | .write chunk => ManagedLogicalSink.write chunk
  | .verifyOutput size digest => ManagedLogicalSink.verifyOutput size digest
  | .recordUsageEvidence event => ManagedLogicalSink.recordUsageEvidence event
  | .complete => do let _ ← ManagedLogicalSink.complete
  | .abort => ManagedLogicalSink.abort

/-- What an effect does to the repository, and what it may answer. -/
def SinkEffect.Performs : (e : SinkEffect) → MemoryState → SinkAnswer e → MemoryState → Prop
  | .call c, s, r, s' =>
    (∃ env : CallEnv, env.Fresh s ∧ c.fresh s = true ∧ s' = c.next env s ∧
      (r = c.result env s ∨ ∃ error, r = .error error)) ∨
    (s' = s ∧ ∃ error, r = .error error)
  | .logicalOperation id, s, r, s' =>
    s' = s ∧ (r = .ok (s.logicalOperations.get? id) ∨ ∃ error, r = .error error)
  | _, s, _, s' => s' = s

/-- One logical sink, over a repository that others use at the same time. -/
def sinkSystem : AgentSystem Unit SinkEffect SinkAnswer MemoryState where
  State _ := ManagedLogicalSink
  Op _ := SinkOp
  Result _ := Except TransactionError Unit
  exec _ op sink := op.run sink
  perform _ := SinkEffect.Performs
  drift s s' := ∃ e, Step s e s'

/-- The call has returned `Ok`. -/
def Returned (op : SinkOp) (log : List (sinkSystem.Entry ())) : Prop :=
  AgentSystem.Entry.finished (S := sinkSystem) (i := ()) op (.ok ()) ∈ log

/-- **After an abort that returned `Ok`, and no such completion, the operation is settled and holds
no slot.** -/
def AbortFrees (id : Uuid) (c : sinkSystem.Config) : Prop :=
  Returned .abort (c.log ()) → ¬ Returned .complete (c.log ()) →
    c.world.Settled id ∧ ∀ tenant, c.world.slot tenant ≠ some id

/-- The sink of the operation has just been made. -/
structure SinkInit (id : Uuid) (c : sinkSystem.Config) : Prop where
  reach : Reach Init Step c.world
  idle : ∃ inner, c.agent () = .idle (ManagedLogicalSink.new inner id)
  log : c.log () = []

/-- An abort after the usage record finds the operation settled. -/
def SettledOnAbort (c : sinkSystem.Config) (h : sinkSystem.Happening) : Prop :=
  h = .start () SinkOp.abort → ∀ sink : ManagedLogicalSink, c.agent () = .idle sink →
    sink.committed = false → sink.usageRecorded = true → c.world.Settled sink.operationId

/-! ### What an effect keeps -/

/-- What was settled is settled. -/
def KeepsSettled (s s' : MemoryState) : Prop := ∀ id, s.Settled id → s'.Settled id

omit [Sha256] in
/-- A settled operation holds no slot. -/
theorem SlotsHeld.free (h : SlotsHeld s) (hs : s.Settled id)
    (tenant : String) : s.slot tenant ≠ some id := by
  intro hslot
  obtain ⟨held, hheld, -, hopen⟩ := h tenant id hslot
  obtain ⟨operation, ho, hterm⟩ := hs
  obtain rfl : held = operation := Option.some.inj (hheld.symm.trans ho)
  rw [hopen] at hterm
  cases hterm

theorem Step.keeps {e : Event} (hs : SlotsHeld s) (h : Step s e s') :
    SlotsHeld s' ∧ KeepsSettled s s' := by
  cases h with
  | call => exact ⟨Call.next_slotsHeld hs, fun _ => Call.next_settled⟩
  | rehash h => exact ⟨h.keepsAccounts.slotsHeld hs, fun _ hid => h.keepsAccounts.settled hid⟩

theorem SinkEffect.Performs.keeps {e : SinkEffect} {r : SinkAnswer e}
    (hs : SlotsHeld s) (h : e.Performs s r s') : SlotsHeld s' ∧ KeepsSettled s s' := by
  have hrefl : s' = s → SlotsHeld s' ∧ KeepsSettled s s' := by
    rintro rfl
    exact ⟨hs, fun _ => id⟩
  cases e with
  | call =>
    obtain ⟨env, he, hc, rfl, -⟩ | ⟨rfl, -⟩ := h
    · exact Step.keeps hs (.call he hc)
    · exact hrefl rfl
  | logicalOperation => exact hrefl h.1
  | _ => exact hrefl h

/-- An abort that the repository has proven is settled. -/
theorem SinkEffect.Performs.proven {errorClass : String}
    {physical : Option ManagedProvenPhysicalAllocation}
    (h : (SinkEffect.call (.proveLogicalAbort id errorClass physical)).Performs s (.ok ()) s') :
    s'.Settled id := by
  obtain ⟨env, -, -, rfl, hr | ⟨_, hr⟩⟩ | ⟨-, _, hr⟩ := h
  · -- the answer is the result of the call, so the abort went through
    obtain ⟨r, hr⟩ : ∃ r, (proveLogicalAbort env s id errorClass physical).1 = .ok r := by
      simp only [Call.result, runCall, Outcome.unit] at hr
      cases h : (proveLogicalAbort env s id errorClass physical).1 with
      | ok r => exact ⟨r, rfl⟩
      | error => rw [h] at hr; cases hr
    rcases proveLogicalAbort_cases env s id errorClass physical with
      ⟨hs, hok⟩ | ⟨operation, usage, proven, -, -, hproven, haborts, -⟩
    · obtain ⟨ho, hst⟩ := hok r hr
      exact ⟨r, by rw [← ho, Call.next, runCall, Outcome.unit, hs], by rw [hst]; rfl⟩
    · obtain ⟨-, -, aborted, ho, -, hst⟩ := haborts.settles (hproven.mpr ⟨r, hr⟩)
      exact ⟨aborted, by rw [Call.next, runCall, Outcome.unit, ho, KeyMap.get?_insert_self],
        by rw [hst]; rfl⟩
  · cases hr
  · cases hr

/-! ### The outline of the sink -/

section Discipline

omit [Sha256]

variable {D : Discipline SinkEffect SinkAnswer MemoryState} {sink : ManagedLogicalSink}
  {s : MemoryState}

theorem safe_repositoryCall :
    (repositoryCall c).Safe D R sink s ↔ ∀ s₁, D.rely s s₁ → D.inv s₁ →
      ∀ r s₂, D.act (.call c) s₁ r s₂ → (D.inv s₂ ∧ D.guar s₁ s₂) ∧ R (.ok r) sink s₂ :=
  safe_perform (e := SinkEffect.call c)

variable (hkeep : ∀ e s r s', D.inv s → D.act e s r s' → D.inv s' ∧ D.guar s s')

include hkeep

theorem repositoryCall_safe (hR : ∀ r s, R (.ok r) sink s) : (repositoryCall c).Safe D R sink s :=
  safe_perform_of (e := SinkEffect.call c) (hkeep _) hR

theorem logicalOperation_safe
    {R : Except TransactionError (Except ManagedError (Option ManagedLogicalOperation)) →
      ManagedLogicalSink → MemoryState → Prop}
    (hR : ∀ r s, R (.ok r) sink s) : (logicalOperation id).Safe D R sink s :=
  safe_perform_of (e := SinkEffect.logicalOperation id) (hkeep _) hR

/-- A call of the inner sink changes only the inner sink. -/
theorem ManagedLogicalSink.onInner_safe {α : Type} {m : SinkMethod ManagedReplicatedSink α} :
    (onInner m).Safe D (fun _ sink' _ => ∃ inner, sink' = { sink with inner := inner }) sink s :=
  safe_zoom.mpr ((Prog.safe_of_effects hkeep _ _).mono fun r _ _ => ⟨r.2, rfl⟩)

/-- The record of the usage leaves the operation and the commit alone. -/
theorem ManagedLogicalSink.recordUsageEvidence_safe {event : UsageEvent} :
    (recordUsageEvidence event).Safe D (fun _ sink' _ => sink'.operationId = sink.operationId ∧
      sink'.committed = sink.committed) sink s := by
  unfold recordUsageEvidence
  rw [safe_bind, safe_get]
  dsimp only
  split
  · exact ⟨rfl, rfl⟩
  split
  · exact ⟨rfl, rfl⟩
  · exact ⟨rfl, rfl⟩
  · simp only [safe_bind, safe_ofExcept, safe_modify]
    refine logicalOperation_safe hkeep fun r s => ?_
    dsimp only
    split
    · split
      · refine repositoryCall_safe hkeep fun r s => ?_
        dsimp only
        split
        · refine repositoryCall_safe hkeep fun r s => ?_
          dsimp only
          split <;> exact ⟨rfl, rfl⟩
        · exact ⟨rfl, rfl⟩
      · exact ⟨rfl, rfl⟩
    · exact ⟨rfl, rfl⟩

/-- **An abort that returns `Ok` before the commit has settled the operation**, if the operation was
settled whenever its usage was recorded. -/
theorem ManagedLogicalSink.abort_safe
    (hrely : ∀ s s', D.rely s s' → KeepsSettled s s')
    (hguar : ∀ s s', D.guar s s' → KeepsSettled s s')
    (hprove : ∀ s s', D.act (.call (.proveLogicalAbort sink.operationId "client_abort" none)) s
      (.ok ()) s' → s'.Settled sink.operationId)
    (hs : sink.committed = false → sink.usageRecorded = true → s.Settled sink.operationId) :
    abort.Safe D (fun r _ s' => r = .ok () → sink.committed = true ∨ s'.Settled sink.operationId)
      sink s := by
  unfold abort
  rw [safe_bind, safe_get]
  dsimp only
  split
  · next hc => exact fun _ => .inl hc
  · next hc =>
    rw [safe_bind]
    -- the inner abort keeps what the usage record has asked for
    refine Prog.Safe.mono (Prog.Safe.keep
      (R := fun s => sink.committed = false → sink.usageRecorded = true →
        s.Settled sink.operationId)
      (onInner_safe hkeep) (fun s s' hr _ h hc hu => hrely s s' hr _ (h hc hu))
      (fun s s' hg h hc hu => hguar s s' hg _ (h hc hu)) hs) ?_
    rintro ⟨r, _⟩ s' ⟨⟨inner, rfl⟩, hs'⟩
    cases r with
    | error => exact fun h => by cases h
    | ok u =>
      dsimp only
      split
      · next hu => exact fun _ => .inr (hs' (by simpa using hc) hu)
      rw [safe_bind, safe_repositoryCall]
      intro s₁ _ hi r s₂ ha
      refine ⟨hkeep _ s₁ r s₂ hi ha, ?_⟩
      dsimp only
      rw [safe_ofExcept]
      cases r with
      | error => exact fun h => by cases h
      | ok => exact fun _ => .inr (hprove s₁ s₂ ha)

/-- Whatever is called, the operation stays, and only a completion that returns `Ok` commits. -/
theorem SinkOp.run_commits [Sha256] :
    op.run.Safe D (fun r sink' _ => sink'.operationId = sink.operationId ∧
      (sink'.committed = true → sink.committed = true ∨ (op = .complete ∧ r = .ok ()))) sink s := by
  cases op with
  | write =>
    unfold run ManagedLogicalSink.write
    rw [safe_bind, safe_get]
    dsimp only
    split
    · exact ⟨rfl, .inl⟩
    refine (ManagedLogicalSink.onInner_safe hkeep).mono ?_
    rintro r _ s' ⟨inner, rfl⟩
    exact ⟨rfl, .inl⟩
  | verifyOutput =>
    unfold run ManagedLogicalSink.verifyOutput
    rw [safe_bind, safe_get]
    dsimp only
    split
    · exact ⟨rfl, .inl⟩
    rw [safe_bind]
    refine (ManagedLogicalSink.onInner_safe hkeep).mono ?_
    rintro (e | u) _ s' ⟨inner, rfl⟩ <;> exact ⟨rfl, .inl⟩
  | recordUsageEvidence =>
    refine (ManagedLogicalSink.recordUsageEvidence_safe hkeep).mono ?_
    rintro r sink' s' ⟨hid, hc⟩
    exact ⟨hid, fun h => .inl (hc ▸ h)⟩
  | complete =>
    unfold run ManagedLogicalSink.complete
    simp only [safe_bind, safe_get]
    split
    · exact ⟨rfl, .inl⟩
    split
    · exact ⟨rfl, .inl⟩
    simp only [safe_bind]
    refine (ManagedLogicalSink.onInner_safe hkeep).mono ?_
    rintro (e | stored) _ s' ⟨inner, rfl⟩
    · exact ⟨rfl, .inl⟩
    · exact ⟨rfl, fun _ => .inr ⟨trivial, rfl⟩⟩
  | abort =>
    unfold run ManagedLogicalSink.abort
    rw [safe_bind, safe_get]
    dsimp only
    split
    · exact ⟨rfl, .inl⟩
    rw [safe_bind]
    refine (ManagedLogicalSink.onInner_safe hkeep).mono ?_
    rintro (e | u) _ s' ⟨inner, rfl⟩
    · exact ⟨rfl, .inl⟩
    · dsimp only
      split
      · exact ⟨rfl, .inl⟩
      rw [safe_bind]
      refine repositoryCall_safe hkeep fun r s => ?_
      dsimp only
      rw [safe_ofExcept]
      exact ⟨rfl, .inl⟩

/-- What a call makes of the sink and of its operation. -/
structure CallEffect (sink : ManagedLogicalSink) (op : SinkOp) (r : Except TransactionError Unit)
    (sink' : ManagedLogicalSink) (s' : MemoryState) : Prop where
  operationId : sink'.operationId = sink.operationId
  committed : sink'.committed = true → sink.committed = true ∨ (op = .complete ∧ r = .ok ())
  aborted : op = .abort → r = .ok () → sink.committed = true ∨ s'.Settled sink.operationId

/-- Every call has this effect, if an abort finds the operation settled once its usage is recorded.
-/
theorem SinkOp.run_safe [Sha256]
    (hrely : ∀ s s', D.rely s s' → KeepsSettled s s')
    (hguar : ∀ s s', D.guar s s' → KeepsSettled s s')
    (hprove : ∀ s s', D.act (.call (.proveLogicalAbort sink.operationId "client_abort" none)) s
      (.ok ()) s' → s'.Settled sink.operationId)
    (hs : op = .abort → sink.committed = false → sink.usageRecorded = true →
      s.Settled sink.operationId) : op.run.Safe D (CallEffect sink op) sink s := by
  have hcommits : op.run.Safe D _ sink s := SinkOp.run_commits hkeep
  by_cases hop : op = .abort
  · subst hop
    refine Prog.Safe.mono (hcommits.and
      (ManagedLogicalSink.abort_safe hkeep hrely hguar hprove (hs rfl))) ?_
    rintro r s' ⟨⟨hid, hc⟩, hr⟩
    exact ⟨hid, hc, fun _ => hr⟩
  · exact hcommits.mono fun r sink' s' h => ⟨h.1, h.2, fun h => absurd h hop⟩

end Discipline

/-- Between two calls: what is committed has been completed, and the operation of an abort that
returned `Ok` is settled. -/
def sinkOutline (id : Uuid) : sinkSystem.Outline where
  inv := SlotsHeld
  rely _ := KeepsSettled
  guar _ := KeepsSettled
  idle _ sink log s := sink.operationId = id ∧ (sink.committed = true → Returned .complete log) ∧
    (Returned .abort log → ¬ Returned .complete log → s.Settled id)

theorem not_returned_called {c : sinkSystem.Config} {sink : ManagedLogicalSink}
    (h : ¬ Returned op (c.log ())) (hne : op ≠ op') :
    ¬ Returned op ((c.called () op' r sink s).log ()) :=
  AgentSystem.Config.finished_mem_called.not.mpr (not_or.mpr ⟨h, fun h' => hne h'.1⟩)

theorem returned_started {log : List (sinkSystem.Entry ())} :
    Returned op (log ++ [.started op']) ↔ Returned op log := by
  simp [Returned]

theorem sinkOutline_sound {id : Uuid} : (sinkOutline id).Sound SettledOnAbort where
  rely_refl _ _ _ := fun h => h
  rely_trans _ _ _ _ h h' id hs := h' id (h id hs)
  guar_rely i j _ _ hne := absurd (Subsingleton.elim i j) hne
  drift s s' hs := by
    rintro ⟨e, he⟩
    obtain ⟨hs', hk⟩ := Step.keeps hs he
    exact ⟨hs', fun _ => hk⟩
  stable _ _ _ s s' := by
    rintro ⟨hid, hc, hab⟩ hk _
    exact ⟨hid, hc, fun ha hn => hk id (hab ha hn)⟩
  exec c i op sink hidle hC hinv := by
    rintro ⟨rfl, hc, hab⟩
    have hkeep : ∀ e s r s', SlotsHeld s → ((sinkOutline sink.operationId).discipline
        SettledOnAbort i op).act e s r s' → SlotsHeld s' ∧ KeepsSettled s s' :=
      fun e s r s' hs ha => ha.1.keeps hs
    have hrun : op.run.Safe ((sinkOutline sink.operationId).discipline SettledOnAbort i op)
        (CallEffect sink op) sink c.world :=
      SinkOp.run_safe hkeep (fun _ _ h => h) (fun _ _ h => h)
        (fun _ _ ha => ha.1.proven) (fun hop hcom hu => hC (by rw [hop]) sink hidle hcom hu)
    -- what an earlier abort has settled stays settled through the call
    refine Prog.Safe.mono (Prog.Safe.keep (R := fun s => Returned .abort (c.log ()) →
      ¬ Returned .complete (c.log ()) → s.Settled sink.operationId) hrun ?_ ?_ hab) ?_
    · exact fun s s' hk _ h ha hn => hk _ (h ha hn)
    · exact fun s s' hk h ha hn => hk _ (h ha hn)
    · rintro ⟨r, sink'⟩ s' ⟨he, hab'⟩
      refine ⟨he.operationId, fun h => ?_, fun ha hn => ?_⟩
      · exact AgentSystem.Entry.finished_mem_append.mpr ((he.committed h).imp hc fun h =>
          ⟨h.1.symm, h.2⟩)
      · obtain ⟨hn, -⟩ := not_or.mp (AgentSystem.Entry.finished_mem_append.not.mp hn)
        obtain ha | ⟨hop, hr⟩ := AgentSystem.Entry.finished_mem_append.mp ha
        · exact hab' ha hn
        · exact (he.aborted hop.symm hr).resolve_left fun h => hn (hc h)

/-- **In every run whose aborts after the usage record find the operation settled, an abort that
returned `Ok` leaves the operation settled and the slot free.** -/
theorem abortFrees_of_guarded {id : Uuid} {c : sinkSystem.Config}
    (r : Reach (SinkInit id) (Guarded sinkSystem.Step SettledOnAbort) c) : AbortFrees id c := by
  have hinit : ∀ c, SinkInit id c → (sinkOutline id).Holds SettledOnAbort c := by
    rintro c ⟨hr, ⟨inner, hidle⟩, hlog⟩
    refine ⟨slotsHeld_of_reach hr, fun i => ?_⟩
    unfold AgentSystem.Outline.At
    rw [hidle, hlog]
    exact ⟨rfl, nofun, nofun⟩
  have hsettled := sinkOutline_sound.always hinit (i := ())
    (P := fun log s => Returned .abort log → ¬ Returned .complete log → s.Settled id)
    (fun c hc ha => by rw [hc.log] at ha; cases ha) (fun _ _ _ h => h.2.2)
    (fun _ _ _ h ha hn => h (returned_started.mp ha) (returned_started.not.mp hn))
    (fun _ _ _ hk h ha hn => hk id (h ha hn)) (fun _ _ _ hk h ha hn => hk id (h ha hn)) r
  intro ha hn
  have hs := hsettled ha hn
  exact ⟨hs, (sinkOutline_sound.reach hinit r).inv.free hs⟩

end System

/-! ### An abort after the usage record -/

/-- The sink of the put of `sampleIntent` as it begins, on the primary backend only. -/
def singleSink : ManagedReplicatedSink :=
  { sampleSink with placement := ⟨1, "a", none⟩, hasReplica := false, output := none }

section Runs

variable [Sha256] {act : (e : SinkEffect) → MemoryState → SinkAnswer e → MemoryState → Prop}
  {s s₁ s₂ : MemoryState}

/-- The sink of `sampleIntent` over a repository. -/
def sampleStart (s : MemoryState) : sinkSystem.Config :=
  ⟨s, fun _ => .idle (ManagedLogicalSink.new singleSink ⟨101⟩), fun _ => []⟩

theorem sampleStart_init (r : Reach Init Step s) : SinkInit ⟨101⟩ (sampleStart s) :=
  ⟨r, ⟨singleSink, rfl⟩, rfl⟩

/-- An abort in which the destination and the repository agree. -/
theorem abort_runs (h : act (.abort .primary) s (.ok ()) s)
    (h₁ : act (.call (.proveLogicalAbort ⟨101⟩ "client_abort" none)) s (.ok ()) s₁) :
    (SinkOp.abort.run (.new singleSink ⟨101⟩)).Runs act s
      (.ok (), .new { singleSink with finished := true } ⟨101⟩) s₁ :=
  .call h (.call h₁ .ret)

/-- The sink of `sampleIntent`, after its output is verified. -/
def verifiedSink : ManagedLogicalSink where
  inner := { singleSink with output := some (3, "d") }
  operationId := ⟨101⟩
  expectedOutputSize := some 3
  expectedOutputDigest := some "d"
  usageRecorded := false
  committed := false

theorem verifyOutput_runs (h : act (.verifyOutput .primary 3 "d") s (.ok ()) s) :
    ((SinkOp.verifyOutput 3 "d").run (.new singleSink ⟨101⟩)).Runs act s (.ok (), verifiedSink) s :=
  .call h .ret

theorem recordUsageEvidence_runs {operation : ManagedLogicalOperation}
    (hput : operation.intent.kind = .put)
    (h : act (.logicalOperation ⟨101⟩) s (.ok (some operation)) s)
    (h₁ : act (.call (.recordLogicalUsage ⟨101⟩ ⟨some "d", 3, 3, 3, ""⟩)) s (.ok ()) s₁)
    (h₂ : act (.call (.transitionLogicalOperation ⟨101⟩ .open .completing none)) s₁ (.ok ()) s₂) :
    ((SinkOp.recordUsageEvidence ⟨3, 3, ""⟩).run verifiedSink).Runs act s
      (.ok (), { verifiedSink with usageRecorded := true }) s₂ := by
  rcases operation with ⟨intent⟩
  rcases intent with ⟨kind⟩
  cases hput
  exact .call h (.call h₁ (.call h₂ .ret))

/-- With the usage recorded, the abort is over once the destination has aborted. -/
theorem abort_recorded_runs (h : act (.abort .primary) s (.ok ()) s) :
    (SinkOp.abort.run { verifiedSink with usageRecorded := true }).Runs act s
      (.ok (), { verifiedSink with
        inner := { verifiedSink.inner with finished := true }
        usageRecorded := true }) s :=
  .call h .ret

end Runs

/-- An abort without a usage record settles the operation. -/
theorem abortFrees_before_usage : letI := sampleSha256
    ∃ c : sinkSystem.Config, Returned .abort (c.log ()) ∧ ¬ Returned .complete (c.log ()) ∧
      AbortFrees ⟨101⟩ c := by
  let _ := sampleSha256
  have r : Reach Init Step (runSample (putScript.take 2)) := reach_runSample (by decide +kernel)
  generalize hs : runSample (putScript.take 2) = s at r
  have hfresh : (CallEnv.counting 2 10).Fresh s :=
    CallEnv.counting_fresh 2 (by rw [← hs]; decide +kernel)
  have hok : (Call.proveLogicalAbort ⟨101⟩ "client_abort" none).result (.counting 2 10) s =
      .ok () := by
    rw [← hs]
    decide +kernel
  have run := AgentSystem.Reach.call () SinkOp.abort
    (C := SettledOnAbort) (.init (sampleStart_init r)) rfl
    (by rintro - sink h - hu; cases h; cases hu)
    (abort_runs ⟨rfl, fun _ _ => nofun⟩
      ⟨.inl ⟨.counting 2 10, hfresh, rfl, rfl, .inl hok.symm⟩, fun _ _ => nofun⟩)
    (fun _ => nofun)
  refine ⟨_, AgentSystem.Config.finished_mem_called.mpr (.inr ⟨rfl, rfl⟩), ?_,
    abortFrees_of_guarded run⟩
  exact not_returned_called List.not_mem_nil nofun

/-- **An abort after the usage record returns `Ok`, and the operation still holds the slot.** -/
theorem abort_keeps_slot : letI := sampleSha256
    ∃ c : sinkSystem.Config, Reach (SinkInit ⟨101⟩) sinkSystem.Step c ∧
      Returned .abort (c.log ()) ∧ ¬ Returned .complete (c.log ()) ∧
      c.world.slot "t" = some ⟨101⟩ ∧ ¬ c.world.Settled ⟨101⟩ := by
  let _ := sampleSha256
  have r : Reach Init Step (runSample (putScript.take 2)) := reach_runSample (by decide +kernel)
  generalize hs : runSample (putScript.take 2) = s at r
  -- the read and the two calls of the usage record
  obtain ⟨operation, hop, hput⟩ : ∃ operation, s.logicalOperations.get? ⟨101⟩ = some operation ∧
      operation.intent.kind = .put :=
    Option.map_eq_some_iff.mp (by rw [← hs]; decide +kernel)
  have hfresh₁ : (CallEnv.counting 4 10).Fresh s :=
    CallEnv.counting_fresh 4 (by rw [← hs]; decide +kernel)
  have hok₁ : (Call.recordLogicalUsage ⟨101⟩ ⟨some "d", 3, 3, 3, ""⟩).result (.counting 4 10) s =
      .ok () := by
    rw [← hs]
    decide +kernel
  obtain ⟨s₁, hs₁⟩ : ∃ s₁, s₁ =
    (Call.recordLogicalUsage ⟨101⟩ ⟨some "d", 3, 3, 3, ""⟩).next (.counting 4 10) s := ⟨_, rfl⟩
  have hfresh₂ : (CallEnv.counting 5 10).Fresh s₁ :=
    CallEnv.counting_fresh 5 (by rw [hs₁, ← hs]; decide +kernel)
  have hok₂ : (Call.transitionLogicalOperation ⟨101⟩ .open .completing none).result
      (.counting 5 10) s₁ = .ok () := by
    rw [hs₁, ← hs]
    decide +kernel
  obtain ⟨s₂, hs₂⟩ : ∃ s₂, s₂ =
    (Call.transitionLogicalOperation ⟨101⟩ .open .completing none).next (.counting 5 10) s₁ :=
    ⟨_, rfl⟩
  have verified := AgentSystem.Reach.call () (SinkOp.verifyOutput 3 "d")
    (C := fun _ _ => True) (.init (sampleStart_init r)) rfl trivial
    (verifyOutput_runs ⟨rfl, fun _ _ => trivial⟩) (fun _ => trivial)
  have recorded := AgentSystem.Reach.call () (SinkOp.recordUsageEvidence ⟨3, 3, ""⟩)
    verified AgentSystem.Config.called_agent trivial
    (recordUsageEvidence_runs hput ⟨⟨rfl, .inl (congrArg _ hop.symm)⟩, fun _ _ => trivial⟩
      ⟨.inl ⟨.counting 4 10, hfresh₁, rfl, hs₁, .inl hok₁.symm⟩, fun _ _ => trivial⟩
      ⟨.inl ⟨.counting 5 10, hfresh₂, rfl, hs₂, .inl hok₂.symm⟩, fun _ _ => trivial⟩)
    (fun _ => trivial)
  have aborted := AgentSystem.Reach.call () SinkOp.abort
    recorded AgentSystem.Config.called_agent trivial
    (abort_recorded_runs ⟨rfl, fun _ _ => trivial⟩) (fun _ => trivial)
  refine ⟨_, aborted.of_guarded, AgentSystem.Config.finished_mem_called.mpr (.inr ⟨rfl, rfl⟩), ?_,
    ?_, ?_⟩
  · exact not_returned_called (not_returned_called (not_returned_called List.not_mem_nil nofun)
      nofun) nofun
  · change s₂.slot "t" = _
    rw [hs₂, hs₁, ← hs]
    decide +kernel
  · have hcompleting : (s₂.logicalOperations.get? ⟨101⟩).map (·.state) = some .completing := by
      rw [hs₂, hs₁, ← hs]
      decide +kernel
    obtain ⟨operation, ho, hst⟩ := Option.map_eq_some_iff.mp hcompleting
    rintro ⟨settled, hsettled, hterm⟩
    obtain rfl : operation = settled := Option.some.inj (ho.symm.trans hsettled)
    rw [hst] at hterm
    cases hterm

end S4.Managed
