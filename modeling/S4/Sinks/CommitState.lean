import S4.Managed.LogicalSink
import S4.Sinks.Local
import S4.Transaction.Recorded

/-!
# Sinks — CommitState

May a caller believe a sink that says `Committed`?  `ObjectSinkTransaction` is the trait that the
five sinks implement, each over the world that its effects act on; `Truthful` says that a sink
reports a commit only after a `complete` that returned `Ok`, or when the journal records the commit.

Three of the five keep one flag for both ends of a transaction: an abort that goes through sets
`finished`, and `finished` is reported as `Committed` (`aborted_sinks_report_commit`).  `Unaborted`
rules those aborts out, by what they find: a memory sink that is not finished, a spool file that can
be removed, a primary destination that can be aborted.  In every run of the other steps every sink
is truthful (`commitState_truthful`).
-/

namespace S4.Sinks

open Lib Method
open Managed (ManagedLogicalSink ManagedReplicatedSink MemoryState Sha256 SinkAnswer SinkEffect
  SinkOp Uuid)
open Transaction (DirectS3Sink SinkCommitState StoredObjectMeta TransactionError World)

/-! ### The trait -/

/-- An implementation of the trait, over the world of its effects.  `Recorded` is what the world may
say about the commit by itself. -/
structure ObjectSinkTransaction where
  Sink : Type
  Effect : Type
  Answer : Effect → Type
  World : Type
  run : SinkOp → Method Effect Answer Sink TransactionError Unit
  commitState : Sink → SinkCommitState
  Performs : (e : Effect) → World → Answer e → World → Prop
  Drifts : World → World → Prop
  Begun : World → Sink → Prop
  Recorded : World → Sink → Prop

namespace ObjectSinkTransaction

variable (T : ObjectSinkTransaction)

/-- One sink, which is called again and again; its world may move by itself. -/
def system : AgentSystem Unit T.Effect T.Answer T.World where
  State _ := T.Sink
  Op _ := SinkOp
  Result _ := Except TransactionError Unit
  exec _ op sink := T.run op sink
  perform _ := T.Performs
  drift := T.Drifts

/-- The sink has just been made. -/
def Init (c : T.system.Config) : Prop :=
  ∃ sink, c.agent () = .idle sink ∧ T.Begun c.world sink ∧ c.log () = []

/-- The call has returned `Ok`. -/
def Returned (op : SinkOp) (log : List (T.system.Entry ())) : Prop :=
  AgentSystem.Entry.finished (S := T.system) (i := ()) op (.ok ()) ∈ log

/-- **A commit that the sink reports has been made**: `complete` has returned `Ok`, or it is on
record. -/
def Truthful (c : T.system.Config) : Prop :=
  ∀ sink, c.agent () = .idle sink → T.commitState sink = .committed →
    T.Returned .complete (c.log ()) ∨ T.Recorded c.world sink

end ObjectSinkTransaction

/-! ### The five sinks -/

/-- What the replicated sink stands on: the repository, and whether its primary destination can be
aborted now. -/
structure ReplicatedWorld where
  repository : MemoryState
  primaryAborts : Bool

/-- The effects of the replicated sink; only the abort of the primary is told apart. -/
def ReplicatedWorld.Performs [Sha256] (e : SinkEffect) (w : ReplicatedWorld) (r : SinkAnswer e)
    (w' : ReplicatedWorld) : Prop :=
  e.Performs w.repository r w'.repository ∧
    match e, r with
    | .abort .primary, r => (∃ u, r = .ok u) ↔ w.primaryAborts = true
    | _, _ => True

section Sinks

variable [Sha256]

def memorySink : ObjectSinkTransaction where
  Sink := MemorySinkTransaction
  Effect := MemoryEffect
  Answer := MemoryAnswer
  World := MemoryStore
  run
    | .write chunk => MemorySinkTransaction.write chunk
    | .verifyOutput size digest => MemorySinkTransaction.verifyOutput size digest
    | .recordUsageEvidence _ => pure ()
    | .complete => do let _ ← MemorySinkTransaction.complete
    | .abort => MemorySinkTransaction.abort
  commitState := MemorySinkTransaction.commitState
  Performs := MemoryEffect.Performs
  Drifts _ _ := True
  Begun _ sink := ∃ bucket key contentType maxBytes,
    MemorySinkTransaction.new bucket key contentType maxBytes = .ok sink
  Recorded _ _ := False

def spoolSink : ObjectSinkTransaction where
  Sink := CompatibilitySpoolTransaction
  Effect := SpoolEffect
  Answer := SpoolAnswer
  World := SpoolWorld
  run
    | .write chunk => CompatibilitySpoolTransaction.write chunk
    | .verifyOutput size digest => CompatibilitySpoolTransaction.verifyOutput size digest
    | .recordUsageEvidence _ => pure ()
    | .complete => do let _ ← CompatibilitySpoolTransaction.complete
    | .abort => CompatibilitySpoolTransaction.abort
  commitState := CompatibilitySpoolTransaction.commitState
  Performs := SpoolEffect.Performs
  Drifts _ _ := True
  Begun w sink := ∃ (maxObjectBytes : Nat) (w₀ : SpoolWorld),
    ((CompatibilitySpoolTransaction.begin maxObjectBytes w₀.quota : SpoolMethod Unit _) ()).Runs
      SpoolEffect.Performs w₀ (.ok sink, ()) w
  Recorded _ _ := False

/-- The journal and the provider are those of all operations, and others act on them. -/
def directSink (pages : Nat) : ObjectSinkTransaction where
  Sink := DirectS3Sink
  Effect := Transaction.Effect
  Answer := Transaction.Answer
  World := World
  run
    | .write chunk => DirectS3Sink.write chunk
    | .verifyOutput size digest => DirectS3Sink.verifyOutput size digest
    | .recordUsageEvidence _ => pure ()
    | .complete => do let _ ← DirectS3Sink.complete pages
    | .abort => DirectS3Sink.abort pages
  commitState := DirectS3Sink.commitState
  Performs e w r w' := ∃ i, e.Performs i w r w'
  Drifts w w' := w.Drifts w' ∨ ∃ i e r, Transaction.Effect.Performs i e w r w'
  Begun w sink := w.Named ∧ ∃ operation maxAttempts exactVersionRecovery,
    operation.state = .intent ∧ sink = .new operation maxAttempts exactVersionRecovery
  Recorded w sink := w.Committed sink.operation.id

def replicatedSink : ObjectSinkTransaction where
  Sink := ManagedReplicatedSink
  Effect := SinkEffect
  Answer := SinkAnswer
  World := ReplicatedWorld
  run
    | .write chunk => ManagedReplicatedSink.write chunk
    | .verifyOutput size digest => ManagedReplicatedSink.verifyOutput size digest
    | .recordUsageEvidence _ => pure ()
    | .complete => do let _ ← ManagedReplicatedSink.complete
    | .abort => ManagedReplicatedSink.abort
  commitState := ManagedReplicatedSink.commitState
  Performs := ReplicatedWorld.Performs
  Drifts _ _ := True
  Begun _ sink := sink.output = none ∧ sink.finished = false
  Recorded _ _ := False

def logicalSink : ObjectSinkTransaction where
  Sink := ManagedLogicalSink
  Effect := SinkEffect
  Answer := SinkAnswer
  World := MemoryState
  run := SinkOp.run
  commitState := ManagedLogicalSink.commitState
  Performs := SinkEffect.Performs
  Drifts _ _ := True
  Begun _ sink := ∃ inner id, sink = .new inner id
  Recorded _ _ := False

end Sinks

inductive SinkKind where
  | memory
  | spool
  | direct (pages : Nat)
  | replicated
  | logical
deriving DecidableEq

section Kinds

variable [Sha256]

def SinkKind.sink : SinkKind → ObjectSinkTransaction
  | .memory => memorySink
  | .spool => spoolSink
  | .direct pages => directSink pages
  | .replicated => replicatedSink
  | .logical => logicalSink

/-- No abort gets through: it finds the memory sink finished, the spool file in place and impossible
to remove, or the primary destination impossible to abort. -/
def SinkKind.Unaborted :
    (kind : SinkKind) → kind.sink.system.Config → kind.sink.system.Happening → Prop
  | .memory, c, h => h = .start () SinkOp.abort →
      ∀ sink : MemorySinkTransaction, c.agent () = .idle sink → sink.finished = true
  | .spool, c, h => h = .act () SpoolEffect.removeFile →
      ∀ p, c.agent () = .busy SinkOp.abort p → SpoolWorld.removes c.world = false
  | .replicated, c, h => h = .act () (SinkEffect.abort .primary) →
      ReplicatedWorld.primaryAborts c.world = false
  | .direct _, _, _ => True
  | .logical, _, _ => True

end Kinds

/-! ### What one call has to keep -/

variable {σ : Type} {flag : σ → Bool} {w w' : SpoolWorld} {sink : CompatibilitySpoolTransaction}
  {pages : Nat} {op : SinkOp}

namespace ObjectSinkTransaction

variable {T : ObjectSinkTransaction} {E W : Type} {A : E → Type} {D : Discipline E A W}

/-- The outline of a sink that reports only its own completions, by a flag. -/
def outline (T : ObjectSinkTransaction) (flag : T.Sink → Bool) : T.system.Outline where
  inv _ := True
  rely _ _ _ := True
  guar _ _ _ := True
  idle _ sink log _ := flag sink = true → T.Returned .complete log

/-- What a call makes of the flag: it was set already, or the call is a `complete` that returns
`Ok`. -/
def Reports {σ W : Type} (flag : σ → Bool) (op : SinkOp) (sink : σ)
    (r : Except TransactionError Unit) (sink' : σ) (_ : W) : Prop :=
  flag sink' = true → flag sink = true ∨ (op = .complete ∧ r = .ok ())

/-- A call that leaves the flag alone. -/
theorem reports_of_keeps {m : Method E A σ TransactionError Unit}
    (hm : ∀ b, m.Keeps D fun sink _ => flag sink = b) {sink : σ} {w : W} :
    m.Safe D (Reports flag op sink) sink w :=
  (hm (flag sink) sink w rfl).mono fun _ _ _ h hs => .inl (h ▸ hs)

/-- A completion that sets the flag only when it returns `Ok`. -/
theorem reports_of_complete {m : Method E A σ TransactionError StoredObjectMeta} {sink : σ} {w : W}
    (hm : m.Safe D (fun r sink' _ => flag sink' = flag sink ∨ ∃ stored, r = .ok stored) sink w) :
    (do let _ ← m : Method E A σ TransactionError Unit).Safe D (Reports flag .complete sink)
    sink w := by
  refine safe_bind.mpr (hm.mono ?_)
  rintro (e | stored) sink' w hr
  · refine fun hs => .inl ?_
    obtain h | ⟨_, h⟩ := hr
    · exact h ▸ hs
    · cases h
  · exact fun _ => .inr ⟨rfl, rfl⟩

/-- **A sink is truthful if no call but a successful `complete` sets the flag that it reports.** -/
theorem truthful_of_calls {flag : T.Sink → Bool} {C : T.system.Config → T.system.Happening → Prop}
    (hflag : ∀ sink, T.commitState sink = .committed ↔ flag sink = true)
    (hbegun : ∀ w sink, T.Begun w sink → flag sink = false)
    (hcall : ∀ (c : T.system.Config) op sink, c.agent () = .idle sink → C c (.start () op) →
      (T.run op).Safe ((T.outline flag).discipline C () op) (Reports flag op sink) sink c.world)
    {c : T.system.Config} (r : Reach T.Init (Guarded T.system.Step C) c) : T.Truthful c := by
  have hsound : (T.outline flag).Sound C :=
    { rely_refl := fun _ _ => trivial
      rely_trans := fun _ _ _ _ _ _ => trivial
      guar_rely := fun _ _ _ _ _ _ _ _ => trivial
      drift := fun _ _ _ _ => ⟨trivial, fun _ => trivial⟩
      stable := fun _ _ _ _ _ h _ _ => h
      exec := by
        intro c i op sink ha hC _ hidle
        refine Prog.Safe.mono (hcall c op sink ha hC) fun r w hr hs => ?_
        exact AgentSystem.Entry.finished_mem_append.mpr
          ((hr hs).imp hidle fun h => ⟨h.1.symm, h.2⟩) }
  have hinit : ∀ c, T.Init c → (T.outline flag).Holds C c := by
    rintro c ⟨sink, ha, hb, -⟩
    refine ⟨trivial, fun _ => ?_⟩
    unfold AgentSystem.Outline.At
    rw [ha]
    intro hs
    rw [hbegun c.world sink hb] at hs
    cases hs
  intro sink ha hs
  have hat := (hsound.reach hinit r).agents ()
  unfold AgentSystem.Outline.At at hat
  rw [ha] at hat
  exact .inl (hat ((hflag sink).mp hs))

end ObjectSinkTransaction

/-! ### What the calls make of the flags -/

section Flags

variable {E : Type} {A : E → Type} {W : Type}

/-- A discipline that forbids nothing. -/
def Free (D : Discipline E A W) : Prop := ∀ w w', D.inv w' ∧ D.guar w w'

/-- What is true of the object alone survives every effect. -/
theorem Free.perform {D : Discipline E A W} (hD : Free D) {P : σ → Prop} (e : E) :
    (Method.perform e : Method E A σ TransactionError (A e)).Keeps D fun sink _ => P sink :=
  keeps_perform (fun _ _ _ _ _ h => h) fun _ w _ w' _ _ h => ⟨hD w w', h⟩

end Flags

namespace MemorySinkTransaction

variable {D : Discipline MemoryEffect MemoryAnswer MemoryStore} {b : Bool}

theorem commitState_eq {sink : MemorySinkTransaction} :
    sink.commitState = .committed ↔ sink.finished = true := by
  rw [commitState]
  split <;> simp_all

theorem write_keeps (chunk : Transaction.Bytes) :
    (write chunk).Keeps D fun sink _ => sink.finished = b := by
  refine .get_bind fun sink w h => ?_
  split
  · exact h
  split <;> exact h

theorem verifyOutput_keeps [Sha256] (size : Nat) (digest : String) :
    (verifyOutput size digest).Keeps D fun sink _ => sink.finished = b := by
  refine .get_bind fun sink w h => ?_
  split <;> exact h

/-- A completion that fails leaves the sink as unfinished as it was. -/
theorem complete_safe (hD : Free D) (sink : MemorySinkTransaction) (w : MemoryStore) :
    complete.Safe D (fun r sink' _ => sink'.finished = sink.finished ∨ ∃ stored, r = .ok stored)
      sink w := by
  rw [complete, safe_bind, safe_get]
  dsimp only
  split
  · exact .inl rfl
  split
  · exact .inl rfl
  · exact fun w₁ _ _ r w₂ _ => ⟨hD w₁ w₂, .inr ⟨_, rfl⟩⟩

end MemorySinkTransaction

/-- A file that is there and cannot be removed stays. -/
theorem SpoolEffect.Performs.refused {r : SpoolAnswer .removeFile}
    (h : SpoolEffect.removeFile.Performs w r w') (hw : w.removes = false) :
    ∃ text, r = .error (.other text) := by
  obtain ⟨content, removable, quota⟩ := w
  cases content with
  | none => cases hw
  | some =>
    cases removable with
    | true => cases hw
    | false => exact h.1

namespace CompatibilitySpoolTransaction

variable {D : Discipline SpoolEffect SpoolAnswer SpoolWorld} {b : Bool}

theorem commitState_eq : sink.commitState = .committed ↔ sink.finished = true := by
  rw [commitState]
  split
  · simp_all
  split <;> simp_all

theorem write_keeps (hD : Free D) (chunk : Transaction.Bytes) :
    (write chunk).Keeps D fun sink _ => sink.finished = b := by
  refine keeps_get_bind fun sink => ?_
  split
  · exact keeps_throw _
  split
  · exact keeps_throw _
  split
  · exact keeps_throw _
  split
  · exact keeps_throw _
  · exact (hD.perform _).bind fun _ => (keeps_ofExcept _).bind fun _ =>
      keeps_modify fun _ _ h => h

theorem verifyOutput_keeps [Sha256] (size : Nat) (digest : String) :
    (verifyOutput size digest).Keeps D fun sink _ => sink.finished = b := by
  refine .get_bind fun sink w h => ?_
  split <;> exact h

/-- The file system has let go of the file. -/
def Removed (D : Discipline SpoolEffect SpoolAnswer SpoolWorld) : Prop :=
  ∃ w a w', D.act .removeFile w a w' ∧ ∀ text, a ≠ .error (.other text)

theorem removeFile_safe (hD : Free D) {sink : CompatibilitySpoolTransaction} {w : SpoolWorld} :
    removeFile.Safe D (fun r sink' _ => sink'.finished = sink.finished ∧ (r = .ok () → Removed D))
      sink w := by
  rw [removeFile, safe_bind, safe_modify]
  intro w₁ _ _ r w₂ ha
  refine ⟨hD w₁ w₂, ?_⟩
  obtain (_ | _) | _ := r
  · exact ⟨rfl, fun _ => ⟨w₁, _, w₂, ha, by simp⟩⟩
  · exact ⟨rfl, fun h => by cases h⟩
  · exact ⟨rfl, fun _ => ⟨w₁, _, w₂, ha, by simp⟩⟩

/-- The end of a transaction succeeds once the file is removed, or leaves the sink unfinished. -/
theorem finish_safe (hD : Free D) {sink : CompatibilitySpoolTransaction} {w : SpoolWorld} :
    finish.Safe D (fun r sink' _ => sink'.finished = sink.finished ∨ (r = .ok () ∧ Removed D))
      sink w := by
  rw [finish, safe_bind]
  refine (removeFile_safe hD).mono fun r sink' w' ⟨hf, hr⟩ => ?_
  cases r with
  | error => exact .inl hf
  | ok => exact fun w₁ _ _ _ w₂ _ => ⟨hD w₁ w₂, .inr ⟨rfl, hr rfl⟩⟩

theorem complete_safe (hD : Free D) (sink : CompatibilitySpoolTransaction) (w : SpoolWorld) :
    complete.Safe D (fun r sink' _ => sink'.finished = sink.finished ∨ ∃ stored, r = .ok stored)
      sink w := by
  rw [complete, safe_bind, safe_get]
  dsimp only
  split
  · exact .inl rfl
  split
  · exact .inl rfl
  split
  · exact .inl rfl
  -- up to the upload the flag is untouched
  have hask : ∀ e, (Method.perform e : SpoolMethod CompatibilitySpoolTransaction _).Keeps D
      fun sink' _ => sink'.finished = sink.finished := fun e => hD.perform e
  refine (hask _).safe_bind_or rfl fun _ _ _ h => (keeps_ofExcept _).safe_bind_or h
    fun _ _ _ h => ?_
  refine (hask _).safe_bind_or h fun _ _ _ h => (keeps_ofExcept _).safe_bind_or h
    fun _ sink' w' h => ?_
  rw [safe_bind, safe_modify]
  refine (hask _).safe_bind_or h fun _ _ _ h => (keeps_ofExcept _).safe_bind_or h
    fun stored sink' w' h => ?_
  rw [safe_bind]
  refine (finish_safe hD).mono fun r sink'' _ hr => ?_
  cases r with
  | error => exact .inl ((hr.resolve_right fun hr => by cases hr.1).trans h)
  | ok => exact .inr ⟨stored, rfl⟩

theorem abort_safe (hD : Free D) (hremove : ¬ Removed D) (sink : CompatibilitySpoolTransaction)
    (w : SpoolWorld) : abort.Safe D (fun _ sink' _ => sink'.finished = sink.finished) sink w := by
  rw [abort, safe_bind, safe_get]
  dsimp only
  split
  · exact rfl
  · exact (finish_safe hD).mono fun _ _ _ hr => hr.resolve_right fun hr => hremove hr.2

end CompatibilitySpoolTransaction

/-! ### The managed sinks -/

section Managed

variable {D : Discipline SinkEffect SinkAnswer ReplicatedWorld} {b : Bool}

namespace Replicated

open Managed.ManagedReplicatedSink

theorem commitState_eq {sink : ManagedReplicatedSink} :
    sink.commitState = .committed ↔ sink.finished = true := by
  rw [commitState]
  split
  · simp_all
  split <;> simp_all

theorem abandonReplica_keeps (hD : Free D) :
    abandonReplica.Keeps D fun sink _ => sink.finished = b := by
  refine keeps_get_bind fun sink => ?_
  split
  · exact .bind (keeps_modify fun _ _ h => h) fun _ => (hD.perform _).bind fun _ =>
      keeps_pure _
  · exact keeps_pure _

theorem write_keeps (hD : Free D) (chunk : Transaction.Bytes) :
    (write chunk).Keeps D fun sink _ => sink.finished = b := by
  refine keeps_get_bind fun sink => ?_
  split
  · exact keeps_throw _
  refine (hD.perform _).bind fun _ => (keeps_ofExcept _).bind fun _ => ?_
  split
  · refine (hD.perform _).bind fun answer => ?_
    cases answer with
    | ok => exact keeps_pure _
    | error => exact abandonReplica_keeps hD
  · exact keeps_pure _

theorem verifyOutput_keeps (hD : Free D) (size : Nat) (digest : String) :
    (verifyOutput size digest).Keeps D fun sink _ => sink.finished = b := by
  have hrest : (modify ({ · with output := some (size, digest) }) :
      Managed.SinkMethod ManagedReplicatedSink Unit).Keeps D fun sink _ => sink.finished = b :=
    keeps_modify fun _ _ h => h
  refine (hD.perform _).bind fun _ => (keeps_ofExcept _).bind fun _ =>
    keeps_get_bind fun sink => ?_
  dsimp only
  split
  · refine (hD.perform _).bind fun answer => ?_
    cases answer with
    | ok => exact hrest
    | error => exact (abandonReplica_keeps hD).bind fun _ => hrest
  · exact hrest

theorem completeReplica_keeps (hD : Free D) :
    completeReplica.Keeps D fun sink _ => sink.finished = b := by
  refine keeps_get_bind fun sink => ?_
  split
  · exact (hD.perform _).bind fun _ => keeps_pure _
  · exact keeps_pure _

variable [Sha256]

theorem enqueueCleanup_keeps (hD : Free D) {authority : Managed.ObjectAuthority}
    {backend : String} : (enqueueCleanup authority backend).Keeps D
      fun sink _ => sink.finished = b :=
  (hD.perform _).bind fun _ => (hD.perform _).bind fun _ => (hD.perform _).bind fun _ =>
    keeps_pure _

theorem publish_keeps (hD : Free D) {c : Managed.Call} :
    (publish c).Keeps D fun sink _ => sink.finished = b := by
  refine (hD.perform _).bind fun answer => ?_
  split
  · exact keeps_pure _
  · refine (enqueueCleanup_keeps hD).bind fun _ => ?_
    split
    · exact (enqueueCleanup_keeps hD).bind fun _ => keeps_throw _
    · exact keeps_throw _
  · exact keeps_throw _

theorem complete_safe (hD : Free D) (sink : ManagedReplicatedSink) (w : ReplicatedWorld) :
    complete.Safe D
      (fun r sink' _ => sink'.finished = sink.finished ∨ ∃ stored, r = .ok stored) sink w := by
  rw [complete, safe_bind, safe_get]
  dsimp only
  split
  · exact .inl rfl
  split
  · exact .inl rfl
  have hask : ∀ e, (Method.perform e : Managed.SinkMethod ManagedReplicatedSink _).Keeps D
      fun sink' _ => sink'.finished = sink.finished := fun e => hD.perform e
  refine (hask _).safe_bind_or rfl fun _ _ _ h => (keeps_ofExcept _).safe_bind_or h
    fun primary _ _ h => ?_
  refine (completeReplica_keeps hD).safe_bind_or h fun completed _ _ h =>
    (hask _).safe_bind_or h fun now sink' w' h => ?_
  split
  · exact .inl h
  · exact (publish_keeps hD).safe_bind_or h fun _ _ _ _ => .inr ⟨primary, rfl⟩

omit [Sha256] in
/-- An abort whose primary destination refuses leaves the sink unfinished. -/
theorem abort_safe (hD : Free D)
    (hprimary : ∀ w r w', D.act (.abort .primary) w r w' → ∃ error, r = .error error)
    (sink : ManagedReplicatedSink) (w : ReplicatedWorld) :
    abort.Safe D
      (fun _ sink' _ => sink'.finished = true → sink.finished = true) sink w := by
  rw [abort, safe_bind, safe_get]
  dsimp only
  split
  next hf => exact fun _ => hf
  · refine safe_bind.mpr ((safe_perform (e := SinkEffect.abort .primary)).mpr
      fun w₁ _ _ r w₂ ha => ⟨hD w₁ w₂, ?_⟩)
    obtain ⟨error, rfl⟩ := hprimary w₁ r w₂ ha
    dsimp only
    have habandon : abandonReplica.Keeps D
        fun sink' _ => sink'.finished = sink.finished := abandonReplica_keeps hD
    refine habandon.safe_bind rfl (fun _ sink' w' _ => ?_) fun _ sink' _ h => ?_
    · rw [safe_bind, safe_modify]
      exact fun h => by cases h
    · exact fun h' => h ▸ h'

end Replicated

namespace Logical

variable {D : Discipline SinkEffect SinkAnswer MemoryState}

theorem commitState_eq {sink : ManagedLogicalSink} :
    sink.commitState = .committed ↔ sink.committed = true := by
  rw [ManagedLogicalSink.commitState]
  split
  · simp_all
  split <;> simp_all

/-- Only a completion that returns `Ok` sets the flag of the logical sink. -/
theorem run_reports [Sha256] (hD : Free D) {sink : ManagedLogicalSink} {w : MemoryState} :
    op.run.Safe D (ObjectSinkTransaction.Reports ManagedLogicalSink.committed op sink) sink w :=
  (SinkOp.run_commits (fun _ w _ w' _ _ => hD w w')).mono fun _ _ _ h => h.2

end Logical

end Managed

/-! ### Every sink is truthful -/

section Truthful

open ObjectSinkTransaction

variable [Sha256]

theorem memorySink_truthful {c : memorySink.system.Config}
    (r : Reach memorySink.Init (Guarded memorySink.system.Step SinkKind.memory.Unaborted) c) :
    memorySink.Truthful c := by
  refine truthful_of_calls (fun _ => MemorySinkTransaction.commitState_eq) ?_ ?_ r
  · rintro w sink ⟨bucket, key, contentType, maxBytes, hnew⟩
    rw [MemorySinkTransaction.new] at hnew
    split at hnew <;> cases hnew
    rfl
  · intro c op sink ha hC
    cases op with
    | write chunk =>
      exact reports_of_keeps (fun _ => MemorySinkTransaction.write_keeps chunk)
    | verifyOutput size digest =>
      exact reports_of_keeps (fun _ => MemorySinkTransaction.verifyOutput_keeps size digest)
    | recordUsageEvidence => exact .inl
    | complete =>
      exact reports_of_complete
        (MemorySinkTransaction.complete_safe (fun _ _ => ⟨trivial, trivial⟩) sink c.world)
    | abort => exact fun _ => .inl (hC rfl sink ha)

omit [Sha256] in
/-- A spool as `begin` returns it is not finished. -/
theorem CompatibilitySpoolTransaction.begin_finished {maxObjectBytes : Nat} {quota : SpoolQuota}
    (h : ((CompatibilitySpoolTransaction.begin maxObjectBytes quota : SpoolMethod Unit _) ()).Runs
      SpoolEffect.Performs w (.ok sink, ()) w') : sink.finished = false := by
  rw [CompatibilitySpoolTransaction.begin] at h
  split at h
  · cases h
  -- the quota is reserved, and the directory and the file are made
  cases h with
  | @call _ _ _ _ _ reserved _ _ h =>
  cases reserved with
  | error => cases h
  | ok =>
  cases h with
  | @call _ _ _ _ _ made _ _ h =>
  cases made with
  | error =>
    cases h with
    | call _ h => cases h
  | ok =>
  cases h with
  | @call _ _ _ _ _ opened _ _ h =>
  cases opened with
  | error =>
    cases h with
    | call _ h => cases h
  | ok =>
    cases h
    rfl

theorem spoolSink_truthful {c : spoolSink.system.Config}
    (r : Reach spoolSink.Init (Guarded spoolSink.system.Step SinkKind.spool.Unaborted) c) :
    spoolSink.Truthful c := by
  refine truthful_of_calls (fun _ => CompatibilitySpoolTransaction.commitState_eq) ?_ ?_ r
  · rintro w sink ⟨maxObjectBytes, w₀, h⟩
    exact CompatibilitySpoolTransaction.begin_finished h
  · intro c op sink ha hC
    have hfree : Free ((spoolSink.outline CompatibilitySpoolTransaction.finished).discipline
        SinkKind.spool.Unaborted () op) := fun _ _ => ⟨trivial, trivial⟩
    cases op with
    | write chunk =>
      exact reports_of_keeps (fun _ => CompatibilitySpoolTransaction.write_keeps hfree chunk)
    | verifyOutput size digest =>
      exact reports_of_keeps (fun _ => CompatibilitySpoolTransaction.verifyOutput_keeps size digest)
    | recordUsageEvidence => exact .inl
    | complete =>
      exact reports_of_complete (CompatibilitySpoolTransaction.complete_safe hfree sink c.world)
    | abort =>
      refine (CompatibilitySpoolTransaction.abort_safe hfree ?_ sink c.world).mono
        fun _ _ _ h hs => .inl (h ▸ hs)
      -- where the guard holds, the removal is refused
      rintro ⟨w, a, w', ⟨hp, c, p, rfl, hbusy, hguard⟩, ha⟩
      obtain ⟨text, rfl⟩ := SpoolEffect.Performs.refused hp (hguard rfl p hbusy)
      exact ha text rfl

theorem replicatedSink_truthful {c : replicatedSink.system.Config} (r : Reach replicatedSink.Init
      (Guarded replicatedSink.system.Step SinkKind.replicated.Unaborted) c) :
    replicatedSink.Truthful c := by
  have hbegun : ∀ w sink, replicatedSink.Begun w sink → ManagedReplicatedSink.finished sink =
    false :=
    fun _ _ h => h.2
  refine truthful_of_calls (fun _ => Replicated.commitState_eq) hbegun ?_ r
  intro c op sink ha hC
  have hfree : Free ((replicatedSink.outline ManagedReplicatedSink.finished).discipline
      SinkKind.replicated.Unaborted () op) := fun _ _ => ⟨trivial, trivial⟩
  cases op with
  | write chunk => exact reports_of_keeps (fun _ => Replicated.write_keeps hfree chunk)
  | verifyOutput size digest =>
    exact reports_of_keeps (fun _ => Replicated.verifyOutput_keeps hfree size digest)
  | recordUsageEvidence => exact .inl
  | complete => exact reports_of_complete (Replicated.complete_safe hfree sink c.world)
  | abort =>
    refine (Replicated.abort_safe hfree ?_ sink c.world).mono fun _ _ _ h hs => .inl (h hs)
    rintro w (error | _) w' ⟨⟨-, hr⟩, c, p, rfl, -, hguard⟩
    · exact ⟨error, rfl⟩
    · -- the answer tells that the primary can be aborted, which the guard rules out
      have hyes : ReplicatedWorld.primaryAborts c.world = true := hr.mp ⟨(), rfl⟩
      rw [hguard rfl] at hyes
      cases hyes

theorem logicalSink_truthful {c : logicalSink.system.Config}
    (r : Reach logicalSink.Init (Guarded logicalSink.system.Step SinkKind.logical.Unaborted) c) :
    logicalSink.Truthful c := by
  refine truthful_of_calls (fun _ => Logical.commitState_eq) ?_ ?_ r
  · rintro w sink ⟨inner, id, rfl⟩
    rfl
  · exact fun c op sink _ _ => Logical.run_reports (fun _ _ => ⟨trivial, trivial⟩)

/-- The outline of the direct sink: its copy of the operation agrees with the journal. -/
def directOutline (pages : Nat) : (directSink pages).system.Outline where
  inv := World.Named
  rely _ w w' := ∀ id, World.Committed w id → World.Committed w' id
  guar _ w w' := ∀ id, World.Committed w id → World.Committed w' id
  idle _ sink _ w := ∃ id, DirectS3Sink.Honest id sink w

theorem directOutline_records
    {C : (directSink pages).system.Config → (directSink pages).system.Happening → Prop}
    (op : SinkOp) :
    Transaction.Records ((directOutline pages).discipline C () op) where
  inv _ := Iff.rfl
  rely _ _ h := h
  act _ _ _ _ h := h.1
  guar _ _ h _ := h.committed

theorem directOutline_sound {pages : Nat} :
    (directOutline pages).Sound (SinkKind.direct pages).Unaborted where
  rely_refl _ _ _ h := h
  rely_trans _ _ _ _ h h' id hc := h' id (h id hc)
  guar_rely _ _ _ _ _ _ _ h := h
  drift w w' hw hd := by
    have hc : World.Calls w w' := by
      obtain hd | ⟨i, e, r, hp⟩ := hd
      · exact hd.calls
      · exact hp.calls
    exact ⟨hc.named hw, fun _ _ => hc.committed⟩
  stable _ _ _ _ _ := by
    rintro ⟨id, hid, hs⟩ hr _
    exact ⟨id, hid, fun h => hr id (hs h)⟩
  exec c i op sink _ _ _ := by
    rintro ⟨id, hh⟩
    have hD := directOutline_records (C := (SinkKind.direct pages).Unaborted) op
    have hkeeps : ((directSink pages).run op).Keeps
        ((directOutline pages).discipline (SinkKind.direct pages).Unaborted () op)
        (DirectS3Sink.Honest id) := by
      cases op with
      | write chunk => exact DirectS3Sink.write_keeps hD chunk
      | verifyOutput size digest => exact DirectS3Sink.verifyOutput_keeps hD size digest
      | recordUsageEvidence => exact keeps_pure _
      | complete => exact (DirectS3Sink.complete_keeps hD pages).bind fun _ => keeps_pure _
      | abort => exact DirectS3Sink.abort_keeps hD pages
    exact Prog.Safe.mono (hkeeps sink c.world hh) fun _ _ h => ⟨id, h⟩

theorem directSink_truthful {c : (directSink pages).system.Config}
    (r : Reach (directSink pages).Init
      (Guarded (directSink pages).system.Step (SinkKind.direct pages).Unaborted) c) :
    (directSink pages).Truthful c := by
  have hinit : ∀ c, (directSink pages).Init c →
      (directOutline pages).Holds (SinkKind.direct pages).Unaborted c := by
    rintro c ⟨sink, ha, ⟨hw, operation, attempts, exact, hs, rfl⟩, -⟩
    refine ⟨hw, fun _ => ?_⟩
    unfold AgentSystem.Outline.At
    rw [ha]
    refine ⟨operation.id, rfl, fun h => ?_⟩
    cases hs.symm.trans h
  intro sink ha hs
  have hat := (directOutline_sound.reach hinit r).agents ()
  unfold AgentSystem.Outline.At at hat
  rw [ha] at hat
  obtain ⟨id, rfl, hc⟩ := hat
  exact .inr (hc (DirectS3Sink.commitState_eq.mp hs))

/-- **In every run in which no abort gets through on a sink that would take it for a commit, every
sink that reports `Committed` has completed, or its commit is on record.** -/
theorem commitState_truthful (kind : SinkKind) {c : kind.sink.system.Config}
    (r : Reach kind.sink.Init (Guarded kind.sink.system.Step kind.Unaborted) c) :
    kind.sink.Truthful c := by
  cases kind with
  | memory => exact memorySink_truthful r
  | spool => exact spoolSink_truthful r
  | direct => exact directSink_truthful r
  | replicated => exact replicatedSink_truthful r
  | logical => exact logicalSink_truthful r

end Truthful

/-! ### An abort that is taken for a commit -/

/-- A sink that has just been made. -/
def ObjectSinkTransaction.start (T : ObjectSinkTransaction) (w : T.World) (sink : T.Sink) :
    T.system.Config :=
  ⟨w, fun _ => .idle sink, fun _ => []⟩

theorem ObjectSinkTransaction.start_init {T : ObjectSinkTransaction} {w : T.World} {sink : T.Sink}
    (h : T.Begun w sink) : T.Init (T.start w sink) := ⟨sink, rfl, h, rfl⟩

/-- A sink that was aborted, and says that it has committed. -/
def ObjectSinkTransaction.Misreports (T : ObjectSinkTransaction) : Prop :=
  ∃ c, Reach T.Init T.system.Step c ∧ T.Returned .abort (c.log ()) ∧
    ¬ T.Returned .complete (c.log ()) ∧ ¬ T.Truthful c

/-- An abort that a new sink takes for a commit. -/
theorem ObjectSinkTransaction.misreports_of_runs {T : ObjectSinkTransaction} {w w' : T.World}
    {sink sink' : T.Sink} (hbegun : T.Begun w sink)
    (hruns : (T.run .abort sink).Runs T.Performs w (.ok (), sink') w')
    (hs : T.commitState sink' = .committed) (hrecord : ¬ T.Recorded w' sink') : T.Misreports := by
  have run := AgentSystem.Reach.call () SinkOp.abort (C := fun _ _ => True)
    (.init (T.start_init hbegun)) rfl trivial (hruns.mono fun _ _ _ _ h => ⟨h, fun _ _ => trivial⟩)
    (fun _ => trivial)
  have hno : ¬ T.Returned .complete
      (((T.start w sink).called () SinkOp.abort (.ok ()) sink' w').log ()) := by
    refine AgentSystem.Config.finished_mem_called.not.mpr
      (not_or.mpr ⟨List.not_mem_nil, fun h => ?_⟩)
    cases h.1
  refine ⟨_, run.of_guarded, AgentSystem.Config.finished_mem_called.mpr (.inr ⟨rfl, rfl⟩), hno,
    fun htrue => ?_⟩
  exact (htrue sink' AgentSystem.Config.called_agent hs).elim hno hrecord

/-- A new memory sink. -/
def sampleMemorySink : MemorySinkTransaction := ⟨"b", "k", "text/plain", 8, [], [], false, false⟩

theorem sampleMemorySink_begun : letI := Managed.sampleSha256
    memorySink.Begun (∅ : MemoryStore) sampleMemorySink := ⟨"b", "k", "text/plain", 8, rfl⟩

/-- The world of a new spool sink. -/
def sampleSpool : SpoolWorld := ⟨some [], true, ⟨8, 8⟩⟩

theorem sampleSpool_begun : letI := Managed.sampleSha256
    spoolSink.Begun sampleSpool (CompatibilitySpoolTransaction.new 8) := by
  refine ⟨8, ⟨none, true, ⟨8, 0⟩⟩, ?_⟩
  refine .call (r := Except.ok ()) ⟨rfl, rfl⟩ ?_
  refine .call (r := Except.ok ()) rfl ?_
  refine .call (r := Except.ok ()) (.inl ⟨rfl, rfl⟩) ?_
  exact .ret

/-- The memory sink, after its empty output is verified. -/
def verifiedMemorySink : MemorySinkTransaction := { sampleMemorySink with outputVerified := true }

theorem verifiedMemorySink_completes [Sha256] {store : MemoryStore} {object : StoredObject}
    {act : (e : MemoryEffect) → MemoryStore → MemoryAnswer e → MemoryStore → Prop}
    (h : act (.put "b" "k" [] "text/plain") ∅ object store) :
    (memorySink.run .complete verifiedMemorySink).Runs act (∅ : MemoryStore)
      (.ok (), { verifiedMemorySink with finished := true }) store := .call h .ret

/-- A memory sink that is verified and completed has committed, and says so. -/
theorem completed_memory_sink_truthful : letI := Managed.sampleSha256
    ∃ (c : memorySink.system.Config) (sink : MemorySinkTransaction), c.agent () = .idle sink ∧
      memorySink.commitState sink = .committed ∧ SinkKind.memory.sink.Truthful c := by
  let _ := Managed.sampleSha256
  have verified := AgentSystem.Reach.call ()
    (SinkOp.verifyOutput 0 (Managed.hexEncode (Sha256.digest [])))
    (C := SinkKind.memory.Unaborted) (.init (memorySink.start_init sampleMemorySink_begun)) rfl
    (fun h => by cases h) (x := (.ok (), verifiedMemorySink)) .ret (fun _ h => by cases h)
  have completed := AgentSystem.Reach.call () SinkOp.complete verified
    AgentSystem.Config.called_agent (fun h => by cases h)
    (verifiedMemorySink_completes ⟨⟨⟨"e", rfl⟩, rfl⟩, fun _ _ h => by cases h⟩)
      (fun _ h => by cases h)
  exact ⟨_, _, AgentSystem.Config.called_agent, rfl, commitState_truthful .memory completed⟩

/-- **After an abort, the memory sink, the spool sink and the replicated sink report a commit.** -/
theorem aborted_sinks_report_commit : letI := Managed.sampleSha256
    SinkKind.memory.sink.Misreports ∧ SinkKind.spool.sink.Misreports ∧
      SinkKind.replicated.sink.Misreports := by
  let _ := Managed.sampleSha256
  have hmemory : memorySink.Misreports :=
    ObjectSinkTransaction.misreports_of_runs sampleMemorySink_begun .ret rfl id
  have hspool : spoolSink.Misreports := by
    have hruns : (CompatibilitySpoolTransaction.abort (.new 8)).Runs SpoolEffect.Performs
      sampleSpool (.ok (), { CompatibilitySpoolTransaction.new 8 with
          hasFile := false, reservedBytes := 0, finished := true })
        { sampleSpool with content := none, quota := ⟨8, 0⟩ } := by
      refine .call (r := Except.ok ()) ⟨rfl, rfl⟩ ?_
      refine .call (r := ()) rfl ?_
      exact .ret
    exact ObjectSinkTransaction.misreports_of_runs sampleSpool_begun hruns rfl id
  have hreplicated : replicatedSink.Misreports := by
    have hruns : (ManagedReplicatedSink.abort Managed.singleSink).Runs ReplicatedWorld.Performs
        ⟨.new, true⟩ (.ok (), { Managed.singleSink with finished := true }) ⟨.new, true⟩ :=
      .call (r := Except.ok ()) ⟨rfl, fun _ => rfl, fun _ => ⟨(), rfl⟩⟩ .ret
    exact ObjectSinkTransaction.misreports_of_runs (T := replicatedSink) ⟨rfl, rfl⟩ hruns rfl id
  exact ⟨hmemory, hspool, hreplicated⟩

end S4.Sinks
