import S4.Managed.Rows
import S4.Managed.Accounts

/-!
# Managed — Frames

The tables that a call leaves alone.  The authorities, repair rows, logical operations and usage
rows are the objects of the repository; the other tables — write intents with their leases, the
ledger, fences, purges, epochs, multipart activities and cursors — are the tables around them.  The
calls that work on objects change nothing else (`Call.next_onlyObjects`), so an invariant of the
tables around them is proved by looking at the other calls only.

`AnyStep` is the step relation without a condition on the identifiers a call draws: what is proved
of it holds whatever the clock reads and the identifiers are.
-/

namespace S4.Managed

open Lib

/-! ### Only the objects change -/

/-- The two states agree outside the authorities, the repair rows, the operations and the usage. -/
def OnlyObjects (s s' : MemoryState) : Prop :=
  s' = { s with
    authorities := s'.authorities
    repairs := s'.repairs
    logicalOperations := s'.logicalOperations
    workspaceUsage := s'.workspaceUsage }

namespace OnlyObjects

variable {s s₁ s' : MemoryState}

theorem refl (s : MemoryState) : OnlyObjects s s := rfl

theorem of_eq (h : s' = s) : OnlyObjects s s' := by
  rw [h]
  exact refl s

theorem trans (h₁ : OnlyObjects s s₁) (h₂ : OnlyObjects s₁ s') : OnlyObjects s s' := by
  simp only [OnlyObjects] at *
  rw [h₂, h₁]

theorem repairs (h : OnlyObjects s s₁) (h' : OnlyRepairs s₁ s') : OnlyObjects s s' := by
  refine h.trans ?_
  simp only [OnlyRepairs] at h'
  rw [h']
  rfl

theorem replaceAuthority [Sha256] (s : MemoryState) (env : CallEnv) (epoch : Nat)
    (authority : ObjectAuthority) (existing : Option ObjectAuthority) :
    OnlyObjects s (s.replaceAuthority env epoch authority existing) :=
  repairs (by exact rfl) (s.replaceAuthority_only env epoch authority existing)

end OnlyObjects

theorem OnlyRows.objects {s s' : MemoryState} (h : OnlyRows s s') : OnlyObjects s s' := by
  rw [OnlyRows] at h
  rw [h]
  rfl

/-- The calls that work on the objects. -/
def Call.onObjects : Call → Bool
  | .insertLogicalOperation .. | .reserveLogicalOperation .. | .recordLogicalUsage .. => true
  | .transitionLogicalOperation .. | .commitLogicalPut .. | .commitLogicalDelete .. => true
  | .proveLogicalAbort .. | .publish .. | .tombstone .. | .advancePlacementVersion .. => true
  | .enqueue .. | .claimRepairs .. | .renewRepair .. | .failRepair .. | .completeRepair .. => true
  | _ => false

variable {c : Call}

section Calls

variable (env : CallEnv) (s : MemoryState)

theorem insertLogicalOperation_only (intent : ManagedLogicalOperationIntent) :
    OnlyObjects s (insertLogicalOperation env s intent).2 := by
  simp only [insertLogicalOperation]
  repeat' split
  all_goals exact rfl

theorem reserveLogicalOperation_only (id : Uuid) (bytes : Nat) :
    OnlyObjects s (reserveLogicalOperation env s id bytes).2 := by
  simp only [reserveLogicalOperation]
  repeat' split
  all_goals exact rfl

theorem recordLogicalUsage_only (id : Uuid) (evidence : ManagedUsageEvidence) :
    OnlyObjects s (recordLogicalUsage env s id evidence).2 := by
  simp only [recordLogicalUsage]
  repeat' split
  all_goals exact rfl

theorem transitionLogicalOperation_only (id : Uuid)
    (source target : ManagedLogicalOperationState) (error : Option String) :
    OnlyObjects s (transitionLogicalOperation env s id source target error).2 := by
  simp only [transitionLogicalOperation]
  repeat' split
  all_goals exact rfl

theorem replayCommit_only (operation : ManagedLogicalOperation) (accept : ObjectAuthority → Bool) :
    OnlyObjects s (s.replayCommit env operation accept).2 := by
  obtain e | e := replayCommit_cases env s operation accept
  · exact .of_eq e
  · rw [e]
    exact rfl

theorem settleAbort_only (id : Uuid) (operation : ManagedLogicalOperation) (error : String)
    (allocated : Nat) : OnlyObjects s (s.settleAbort env id operation error allocated).2 := by
  simp only [MemoryState.settleAbort]
  repeat' split
  all_goals exact rfl

theorem releaseAllocation_only (id : Uuid) (operation : ManagedLogicalOperation) :
    OnlyObjects s (s.releaseAllocation env id operation).2 := by
  simp only [MemoryState.releaseAllocation]
  repeat' split
  all_goals exact rfl

theorem forgetPhysicalVersion_only (target : PhysicalVersionTarget) :
    OnlyObjects { s with physicalVersions := s.physicalVersions.filter (· != target) }
      (forgetPhysicalVersion env s target).2 := by
  simp only [forgetPhysicalVersion]
  repeat' split
  all_goals first | exact .refl _ | exact releaseAllocation_only env _ _ _

/-- No write intent and no lease of one has changed. -/
structure SameWrites (s s' : MemoryState) : Prop where
  intents : s'.physicalWriteIntents = s.physicalWriteIntents
  blocked : s'.blockedWriteIntents = s.blockedWriteIntents
  leases : s'.physicalWriteLeases = s.physicalWriteLeases
  tokens : s'.physicalWriteTokens = s.physicalWriteTokens
  epochs : s'.physicalWriteEpochs = s.physicalWriteEpochs

theorem SameWrites.refl (s : MemoryState) : SameWrites s s := ⟨rfl, rfl, rfl, rfl, rfl⟩

theorem OnlyObjects.writes {s s' : MemoryState} (h : OnlyObjects s s') : SameWrites s s' := by
  rw [OnlyObjects] at h
  rw [h]
  exact ⟨rfl, rfl, rfl, rfl, rfl⟩

theorem finishPurge_writes (id : Uuid) : SameWrites s (finishPurge env s id).2 := by
  simp only [finishPurge]
  repeat' split
  all_goals exact ⟨rfl, rfl, rfl, rfl, rfl⟩

/-- **A write begins** with a new intent, or finds its own intent, or is refused. -/
theorem beginPhysicalWrite_cases (intent : PhysicalWriteIntent) :
    (∃ e, beginPhysicalWrite env s intent = (.error e, s)) ∨
    (s.fenced intent.tenantId = false ∧ ∃ token,
      s.physicalWriteIntents.get? intent.intentId = some intent ∧
      s.physicalWriteTokens.get? intent.intentId = some token ∧
      beginPhysicalWrite env s intent =
        (.ok ⟨intent.intentId, s.namespaceEpoch intent.tenantId, intent.leaseOwner, token⟩, s)) ∨
    (s.fenced intent.tenantId = false ∧ s.physicalWriteIntents.get? intent.intentId = none ∧
      beginPhysicalWrite env s intent =
        (.ok ⟨intent.intentId, s.namespaceEpoch intent.tenantId, intent.leaseOwner, env.uuid 0⟩,
          { s with
            physicalWriteIntents := s.physicalWriteIntents.insert intent.intentId intent
            physicalWriteLeases := s.physicalWriteLeases.insert intent.intentId
              (satAddInt 64 env.now physicalWriteLeaseMs)
            physicalWriteTokens := s.physicalWriteTokens.insert intent.intentId (env.uuid 0)
            physicalWriteEpochs := s.physicalWriteEpochs.insert intent.intentId
              (s.namespaceEpoch intent.tenantId) })) := by
  simp only [beginPhysicalWrite]
  split
  · exact .inl ⟨_, rfl⟩
  split
  · exact .inl ⟨_, rfl⟩
  next hf =>
  rw [Bool.not_eq_true] at hf
  split
  · exact .inl ⟨_, rfl⟩
  split
  · next existing hi =>
    split
    · exact .inl ⟨_, rfl⟩
    next hne =>
    obtain ⟨rfl, -⟩ := not_or.mp hne |>.imp not_not.mp id
    split
    · exact .inl ⟨_, rfl⟩
    · next token ht => exact .inr (.inl ⟨hf, token, hi, ht, rfl⟩)
  · next hi => exact .inr (.inr ⟨hf, hi, rfl⟩)

/-- **An expired lease is taken over**, or the call leaves everything as it is. -/
theorem claimExpiredPhysicalWriteIntent_cases (id : Uuid) (owner : String) (deadline : Int) :
    ((claimExpiredPhysicalWriteIntent env s id owner deadline).2 = s ∧
      ∀ lease, (claimExpiredPhysicalWriteIntent env s id owner deadline).1 ≠ .ok (some lease)) ∨
    ∃ epoch intent, s.physicalWriteEpochs.get? id = some epoch ∧
      s.physicalWriteIntents.get? id = some intent ∧
      claimExpiredPhysicalWriteIntent env s id owner deadline =
        (.ok (some ⟨id, epoch, owner, env.uuid 0⟩), { s with
          physicalWriteIntents :=
            s.physicalWriteIntents.insert id { intent with leaseOwner := owner }
          physicalWriteTokens := s.physicalWriteTokens.insert id (env.uuid 0)
          physicalWriteLeases := s.physicalWriteLeases.insert id deadline }) := by
  simp only [claimExpiredPhysicalWriteIntent]
  split
  · exact .inl ⟨rfl, by simp⟩
  split
  · next epoch intent he hi => exact .inr ⟨epoch, intent, he, hi, rfl⟩
  · exact .inl ⟨rfl, by simp⟩

/-- No fence, no purge and no namespace epoch has changed. -/
structure SameNamespaces (s s' : MemoryState) : Prop where
  fenced : s'.fencedNamespaces = s.fencedNamespaces
  purges : s'.purges = s.purges
  epochs : s'.namespaceEpochs = s.namespaceEpochs

theorem OnlyObjects.namespaces {s s' : MemoryState} (h : OnlyObjects s s') :
    SameNamespaces s s' := by
  rw [OnlyObjects] at h
  rw [h]
  exact ⟨rfl, rfl, rfl⟩

variable [Sha256]

theorem commitLogicalPut_only (id : Uuid) (authority : ObjectAuthority) (allocated : Nat) :
    OnlyObjects s (commitLogicalPut env s id authority allocated).2 := by
  simp only [commitLogicalPut]
  repeat' split
  all_goals first
    | exact replayCommit_only env s _ _
    | exact rfl
    | exact (OnlyObjects.replaceAuthority ..).trans rfl

theorem commitLogicalDelete_only (id : Uuid) (placement : Placement) :
    OnlyObjects s (commitLogicalDelete env s id placement).2 := by
  simp only [commitLogicalDelete]
  repeat' split
  all_goals first
    | exact replayCommit_only env s _ _
    | exact rfl
    | exact (OnlyObjects.repairs (by exact rfl) (MemoryState.cleanupReplaced_only ..)).trans rfl

theorem proveLogicalAbort_only (id : Uuid) (error : String)
    (physical : Option ManagedProvenPhysicalAllocation) :
    OnlyObjects s (proveLogicalAbort env s id error physical).2 := by
  simp only [proveLogicalAbort]
  repeat' split
  all_goals first
    | exact .refl s
    | exact settleAbort_only env s ..
    | exact (OnlyObjects.repairs (by exact rfl) (insertLedgeredRepairs_only ..)).trans
        (settleAbort_only env _ ..)

/-- **A call on the objects leaves the tables around them alone.** -/
theorem Call.next_onlyObjects (h : c.onObjects = true) : OnlyObjects s (c.next env s) := by
  cases c with
  | insertLogicalOperation intent => exact insertLogicalOperation_only env s intent
  | reserveLogicalOperation id bytes => exact reserveLogicalOperation_only env s id bytes
  | recordLogicalUsage id evidence => exact recordLogicalUsage_only env s id evidence
  | transitionLogicalOperation id source target error =>
    exact transitionLogicalOperation_only env s id source target error
  | commitLogicalPut id authority allocated =>
    exact commitLogicalPut_only env s id authority allocated
  | commitLogicalDelete id placement => exact commitLogicalDelete_only env s id placement
  | proveLogicalAbort id error physical => exact proveLogicalAbort_only env s id error physical
  | publish | tombstone | advancePlacementVersion | enqueue | claimRepairs | renewRepair
  | failRepair | completeRepair => exact (Call.next_onlyRows env s rfl).objects
  | _ => cases h

/-! ### The write intents -/

theorem Call.next_writes (h : c.onWrites = false) : SameWrites s (c.next env s) := by
  by_cases ho : c.onObjects = true
  · exact (c.next_onlyObjects env s ho).writes
  by_cases hs : c.onSessions = true
  · rw [c.next_onlySessions env s hs]
    exact ⟨rfl, rfl, rfl, rfl, rfl⟩
  cases c with
  | forgetPhysicalVersion target =>
    obtain ⟨hi, hb, hl, ht, he⟩ := (forgetPhysicalVersion_only env s target).writes
    exact ⟨hi, hb, hl, ht, he⟩
  | purgeNamespace request =>
    rw [Call.next, runCall]
    obtain e | e | ⟨-, -, e⟩ := purgeNamespace_ends env s request <;> rw [e]
    · exact .refl s
    · exact finishPurge_writes env s _
    · obtain ⟨hi, hb, hl, ht, he⟩ :=
        finishPurge_writes env (s.startPurge request) request.operationId
      exact ⟨hi, hb, hl, ht, he⟩
  | namespacePurgeStatus => exact finishPurge_writes env s _
  | markPurgeTargetDeleted =>
    simp only [Call.next, runCall, Managed.markPurgeTargetDeleted]
    split <;> exact ⟨rfl, rfl, rfl, rfl, rfl⟩
  | markPurgeTargetBlocked => exact ⟨rfl, rfl, rfl, rfl, rfl⟩
  | beginPhysicalWrite | renewPhysicalWriteIntent | claimExpiredPhysicalWriteIntent
  | commitPhysicalWrite | abortPhysicalWrite | blockPhysicalWrite => cases h
  | _ => first | exact absurd rfl hs | exact absurd rfl ho

/-! ### Fences, purges and epochs -/

/-- The calls of a purge. -/
def Call.onNamespaces : Call → Bool
  | .purgeNamespace .. | .namespacePurgeStatus .. => true
  | .markPurgeTargetDeleted .. | .markPurgeTargetBlocked .. => true
  | _ => false

theorem Call.next_namespaces (h : c.onNamespaces = false) : SameNamespaces s (c.next env s) := by
  by_cases ho : c.onObjects = true
  · exact (c.next_onlyObjects env s ho).namespaces
  by_cases hw : c.onWrites = true
  · rw [c.next_onlyWrites env s hw]
    exact ⟨rfl, rfl, rfl⟩
  by_cases hs : c.onSessions = true
  · rw [c.next_onlySessions env s hs]
    exact ⟨rfl, rfl, rfl⟩
  cases c with
  | forgetPhysicalVersion target =>
    obtain ⟨hf, hp, he⟩ := (forgetPhysicalVersion_only env s target).namespaces
    exact ⟨hf, hp, he⟩
  | purgeNamespace | namespacePurgeStatus | markPurgeTargetDeleted
  | markPurgeTargetBlocked => cases h
  | _ => first | exact absurd rfl hw | exact absurd rfl hs | exact absurd rfl ho

/-! ### Steps with any clock and any identifiers -/

/-- The steps of the repository, whatever the clock reads and whatever identifiers are drawn. -/
inductive AnyStep : MemoryState → Event → MemoryState → Prop where
  | call {s : MemoryState} {env : CallEnv} {c : Call} : AnyStep s (.call env c) (c.next env s)
  | rehash {s s' : MemoryState} (h : SameContents s s') : AnyStep s .rehash s'

omit env s in
theorem reach_any {s : MemoryState} (r : Reach Init Step s) : Reach Init AnyStep s := by
  refine r.mono ?_
  intro s e s' h
  cases h with
  | call => exact .call
  | rehash h => exact .rehash h

end Calls

end S4.Managed
