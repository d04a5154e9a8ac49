import S4.Lib.Fallible
import S4.Managed.Calls

/-!
# Managed — Effects

What one call can do, said once.  Most calls leave the authorities and the repair rows alone
(`Call.next_objects`).  A call that installs an authority — `publish`, `tombstone`, the two commits
— either leaves the objects alone or puts one stamped authority in place, adds its publication
repairs and enqueues the cleanups of the authority it replaces (`Installs`, `Call.next_installs`).
A commit also settles its operation (`Commits`), an abort only that (`Aborts`), and a purge drops a
tenant whole (`Drops`).

The invariants of the later modules are proved from these lemmas; none of them unfolds a call.
-/

namespace S4.Managed

open Lib MemoryState

/-! ### What a call leaves alone -/

/-- No authority and no repair row has changed. -/
structure SameObjects (s s' : MemoryState) : Prop where
  authorities : s'.authorities = s.authorities
  repairs : s'.repairs = s.repairs

/-- No logical operation and no usage row has changed. -/
structure SameAccounts (s s' : MemoryState) : Prop where
  logicalOperations : s'.logicalOperations = s.logicalOperations
  workspaceUsage : s'.workspaceUsage = s.workspaceUsage

theorem SameObjects.refl (s : MemoryState) : SameObjects s s := ⟨rfl, rfl⟩

theorem SameObjects.of_eq {s s' : MemoryState} (h : s' = s) : SameObjects s s' := by
  subst h
  exact .refl s'

theorem SameObjects.of_touch {s s' : MemoryState} {now : Int} {tenant : String}
    (h : s' = s.touchUsage now tenant) : SameObjects s s' := by
  subst h
  exact ⟨rfl, rfl⟩

theorem SameAccounts.refl (s : MemoryState) : SameAccounts s s := ⟨rfl, rfl⟩

theorem SameAccounts.of_eq {s s' : MemoryState} (h : s' = s) : SameAccounts s s' := by
  subst h
  exact .refl s'

theorem OnlyRepairs.accounts {s s' : MemoryState} (h : OnlyRepairs s s') : SameAccounts s s' := by
  unfold OnlyRepairs at h
  exact ⟨by rw [h], by rw [h]⟩

theorem OnlyRepairs.authorities {s s' : MemoryState} (h : OnlyRepairs s s') :
    s'.authorities = s.authorities := by
  unfold OnlyRepairs at h
  rw [h]

theorem OnlyRepairs.physicalVersions {s s' : MemoryState} (h : OnlyRepairs s s') :
    s'.physicalVersions = s.physicalVersions := by
  unfold OnlyRepairs at h
  rw [h]

/-- The calls that may change an authority or a repair row. -/
def Call.touchesObjects : Call → Bool
  | .commitLogicalPut .. | .commitLogicalDelete .. | .proveLogicalAbort .. => true
  | .publish .. | .tombstone .. | .advancePlacementVersion .. => true
  | .enqueue .. | .claimRepairs .. | .renewRepair .. | .failRepair .. | .completeRepair .. => true
  | .purgeNamespace .. | .namespacePurgeStatus .. => true
  | _ => false

/-- The calls that may change a logical operation or a usage row. -/
def Call.touchesAccounts : Call → Bool
  | .insertLogicalOperation .. | .reserveLogicalOperation .. | .recordLogicalUsage .. => true
  | .transitionLogicalOperation .. | .commitLogicalPut .. | .commitLogicalDelete .. => true
  | .proveLogicalAbort .. | .forgetPhysicalVersion .. => true
  | .purgeNamespace .. | .namespacePurgeStatus .. => true
  | _ => false

variable (env : CallEnv) (s : MemoryState) {c : Call} {operation : ManagedLogicalOperation}

/-! ### Parts of the calls -/

theorem releaseAllocation_objects (operationId : Uuid) (operation : ManagedLogicalOperation) :
    SameObjects s (s.releaseAllocation env operationId operation).2 := by
  unfold releaseAllocation
  split
  · exact .refl s
  split
  · exact .refl s
  · dsimp only
    split <;> exact ⟨rfl, rfl⟩

/-- The tenant has no unfinished operation and is dropped: the objects and accounts of `s'` are
those that `dropNamespace` leaves. -/
structure Drops (env : CallEnv) (tenant : String) (s s' : MemoryState) : Prop where
  settled : ∀ id operation, s.logicalOperations.get? id = some operation →
    operation.intent.logical.tenantId = tenant → operation.state.terminal = true
  authorities : s'.authorities = (s.dropNamespace env tenant).authorities
  repairs : s'.repairs = (s.dropNamespace env tenant).repairs
  logicalOperations : s'.logicalOperations = (s.dropNamespace env tenant).logicalOperations
  workspaceUsage : s'.workspaceUsage = (s.dropNamespace env tenant).workspaceUsage

theorem Drops.get?_logicalOperations {tenant : String} {s' : MemoryState}
    (h : Drops env tenant s s') (id : Uuid) :
    s'.logicalOperations.get? id = (s.logicalOperations.get? id).map fun o =>
      if o.intent.logical.tenantId = tenant then
        { o with releasedPhysicalBytes := o.committedPhysicalBytes, updatedAtMs := env.now }
      else o := by
  rw [h.logicalOperations, dropNamespace, KeyMap.get?_mapValues]

/-- **The end of a purge**: nothing happens, the purge is blocked, or its tenant is dropped. -/
theorem finishPurge_ends (id : Uuid) :
    (finishPurge env s id).2 = s ∨
    (∃ reason, (finishPurge env s id).2 = s.setPurgeStatus id (.blocked reason)) ∨
    ∃ purge n, s.purges.get? id = some purge ∧ (∀ m, purge.status ≠ .complete m) ∧
      (s.logicalOperations.any fun operation =>
        operation.intent.logical.tenantId == purge.tenantId && !operation.state.terminal) = false ∧
      s.ownsStorage purge.tenantId = false ∧
      (finishPurge env s id).2 =
        (s.dropNamespace env purge.tenantId).setPurgeStatus id (.complete n) := by
  simp only [finishPurge]
  split
  · exact .inl rfl
  next purge hp =>
  split
  · exact .inl rfl
  next hstatus =>
  split
  · exact .inr (.inl ⟨_, rfl⟩)
  split
  · exact .inr (.inl ⟨_, rfl⟩)
  next hops =>
  split
  · exact .inl rfl
  next hown =>
  exact .inr (.inr ⟨purge, _, hp, hstatus, Bool.of_not_eq_true hops, Bool.of_not_eq_true hown, rfl⟩)

/-- The state in which a new purge has fenced its tenant. -/
def MemoryState.startPurge (s : MemoryState) (request : NamespacePurgeRequest) : MemoryState :=
  { s with
    fencedNamespaces := s.fencedNamespaces.insert request.tenantId request.operationId
    purges := s.purges.insert request.operationId ⟨request.tenantId, .running, 0⟩ }

/-- A purge is refused, goes on, or starts. -/
theorem purgeNamespace_ends [Sha256] (request : NamespacePurgeRequest) :
    (purgeNamespace env s request).2 = s ∨
    (purgeNamespace env s request).2 = (finishPurge env s request.operationId).2 ∨
    (s.purges.get? request.operationId = none ∧ s.fenced request.tenantId = false ∧
      (purgeNamespace env s request).2 =
        (finishPurge env (s.startPurge request) request.operationId).2) := by
  simp only [purgeNamespace]
  split
  · split
    · exact .inl rfl
    · exact .inr (.inl rfl)
  next hp =>
  split
  · exact .inl rfl
  next hf =>
  split
  · exact .inl rfl
  · exact .inr (.inr ⟨hp, Bool.of_not_eq_true hf, rfl⟩)

theorem finishPurge_cases (id : Uuid) :
    (SameObjects s (finishPurge env s id).2 ∧ SameAccounts s (finishPurge env s id).2) ∨
    ∃ tenant, Drops env tenant s (finishPurge env s id).2 := by
  obtain e | ⟨reason, e⟩ | ⟨purge, n, -, -, hops, -, e⟩ := finishPurge_ends env s id
  · rw [e]
    exact .inl ⟨.refl s, .refl s⟩
  · rw [e]
    exact .inl ⟨⟨rfl, rfl⟩, rfl, rfl⟩
  · rw [e]
    refine .inr ⟨purge.tenantId, fun id operation ho ht => ?_, rfl, rfl, rfl, rfl⟩
    simpa [ht] using KeyMap.any_eq_false_iff.mp hops id operation ho

/-- What a put has been checked for when its authority is installed. -/
theorem commitPutChecks_ok {authority : ObjectAuthority} {allocated derived : Nat}
    (h : s.commitPutChecks operation authority allocated = .ok derived) :
    authority.logical = operation.intent.logical ∧
      authority.generation = operation.intent.generation ∧
      authority.primaryBackendId = operation.intent.backendId ∧ authority.tombstone = false ∧
      (operation.state = .completing ∨ operation.state = .commitUnknown) ∧
      s.authorityMoved operation.intent = false ∧ s.routeChanged operation.intent = false ∧
      derived ≤ operation.reservedPhysicalBytes := by
  unfold commitPutChecks at h
  split at h
  · cases h
  simp only [ite_error_eq_ok, not_or, not_and_or, not_not, Bool.not_eq_true] at h
  obtain ⟨⟨-, hst, hl, hg, hb, ht, -, -⟩, hroute, h⟩ := h
  split at h
  · cases h
  simp only [ite_error_eq_ok, not_or, not_lt, Bool.not_eq_true] at h
  obtain ⟨⟨-, hle⟩, hmoved, h⟩ := h
  cases h
  exact ⟨hl, hg, hb, ht, hst, hmoved, hroute, hle⟩

/-- An operation whose authority has not moved knows the live size it replaces. -/
theorem liveSize_of_not_moved {intent : ManagedLogicalOperationIntent}
    (h : s.authorityMoved intent = false) :
    liveSize (s.authorities.get? intent.logical) = intent.priorLogicalSize := by
  unfold authorityMoved at h
  simp only [Bool.or_eq_false_iff, bne_eq_false_iff_eq] at h
  exact h.2

theorem replayCommit_cases (operation : ManagedLogicalOperation) (accept : ObjectAuthority → Bool) :
    (s.replayCommit env operation accept).2 = s ∨ (s.replayCommit env operation accept).2 =
      s.touchUsage env.now operation.intent.logical.tenantId := by
  unfold replayCommit
  split
  · exact .inl rfl
  split
  · exact .inl rfl
  · exact .inr rfl

/-- Advancing the placement version changes nothing else about an authority. -/
theorem advancePlacementVersion_cases (logical : LogicalObjectKey) (cas : Nat)
    (placement : Placement) :
    (advancePlacementVersion env s logical cas placement).2 = s ∨
    ∃ a, s.authorities.get? logical = some a ∧
      (advancePlacementVersion env s logical cas placement).2 = { s with
        authorities := s.authorities.insert logical
          ({ a with placementVersion := placement.version }.bump env.now) } := by
  unfold advancePlacementVersion
  split
  · exact .inl rfl
  · cases ha : s.authorities.get? logical with
    | none => exact .inl rfl
    | some a =>
      dsimp only
      split
      · exact .inl rfl
      · exact .inr ⟨a, rfl, rfl⟩

/-- An abort that reached the tenant's usage row.  Visible bytes do not change; if the abort is
proven, the operation is `ProvenAborted` and the slot is not the operation's; otherwise both stay.
-/
structure Aborts (env : CallEnv) (operationId : Uuid) (operation : ManagedLogicalOperation)
    (usage : ManagedWorkspaceUsage) (proven : Bool) (s s' : MemoryState) : Prop where
  authorities : s'.authorities = s.authorities
  workspaceUsage : s'.workspaceUsage =
    s.workspaceUsage.insert operation.intent.logical.tenantId usage
  visible : usage.visibleLogicalBytes =
    (s.usageRow env.now operation.intent.logical.tenantId).visibleLogicalBytes
  unproven : proven = false → s'.logicalOperations = s.logicalOperations ∧
    usage.activeOperationId =
      (s.usageRow env.now operation.intent.logical.tenantId).activeOperationId
  settles : proven = true → usage.activeOperationId ≠ some operationId ∧
    (usage.activeOperationId = none ∨ usage.activeOperationId =
      (s.usageRow env.now operation.intent.logical.tenantId).activeOperationId) ∧
    ∃ aborted : ManagedLogicalOperation,
      s'.logicalOperations = s.logicalOperations.insert operationId aborted ∧
      aborted.intent = operation.intent ∧ aborted.state = .provenAborted

theorem settleAbort_cases (operationId : Uuid) (operation : ManagedLogicalOperation)
    (errorClass : String) (allocated : Nat) :
    ∃ usage proven, (proven = true ↔
        ∃ r, (s.settleAbort env operationId operation errorClass allocated).1 = .ok r) ∧
      Aborts env operationId operation usage proven s
        (s.settleAbort env operationId operation errorClass allocated).2 ∧
      (s.settleAbort env operationId operation errorClass allocated).2.repairs = s.repairs := by
  unfold settleAbort
  dsimp only
  split
  · exact ⟨_, false, by simp, ⟨rfl, rfl, rfl, fun _ => ⟨rfl, rfl⟩, fun h => by cases h⟩, rfl⟩
  split
  · exact ⟨_, false, by simp, ⟨rfl, rfl, rfl, fun _ => ⟨rfl, rfl⟩, fun h => by cases h⟩, rfl⟩
  split
  · exact ⟨_, false, by simp, ⟨rfl, rfl, rfl, fun _ => ⟨rfl, rfl⟩, fun h => by cases h⟩, rfl⟩
  refine ⟨_, true, by simp, ⟨rfl, rfl, rfl, fun h => (by cases h), fun _ => ⟨?_, ?_, ?_⟩⟩, rfl⟩
  · dsimp only
    split
    · intro h
      cases h
    · assumption
  · dsimp only
    split
    · exact .inl rfl
    · exact .inr rfl
  · exact ⟨_, rfl, rfl, rfl⟩

/-- The two states agree outside the routing epochs, the multipart activities and the cursors. -/
def OnlySessions (s s' : MemoryState) : Prop :=
  s' = { s with
    routingEpochs := s'.routingEpochs
    multipartActivities := s'.multipartActivities
    confirmedMultipartActivities := s'.confirmedMultipartActivities
    multipartRegistrationExpiry := s'.multipartRegistrationExpiry
    listCursors := s'.listCursors
    listCursorSuccessors := s'.listCursorSuccessors }

theorem OnlyCursors.sessions {s s' : MemoryState} (h : OnlyCursors s s') : OnlySessions s s' := by
  rw [OnlyCursors] at h
  rw [h]
  rfl

variable [Sha256]

/-- The calls that work on a write intent. -/
def Call.onWrites : Call → Bool
  | .beginPhysicalWrite .. | .renewPhysicalWriteIntent .. => true
  | .claimExpiredPhysicalWriteIntent .. | .commitPhysicalWrite .. => true
  | .abortPhysicalWrite .. | .blockPhysicalWrite .. => true
  | _ => false

/-- The two states agree outside the write intents and the ledger. -/
def OnlyWrites (s s' : MemoryState) : Prop :=
  s' = { s with
    physicalWriteIntents := s'.physicalWriteIntents
    blockedWriteIntents := s'.blockedWriteIntents
    physicalWriteLeases := s'.physicalWriteLeases
    physicalWriteTokens := s'.physicalWriteTokens
    physicalWriteEpochs := s'.physicalWriteEpochs
    physicalVersions := s'.physicalVersions }

theorem Call.next_onlyWrites (h : c.onWrites = true) : OnlyWrites s (c.next env s) := by
  cases c with
  | beginPhysicalWrite | claimExpiredPhysicalWriteIntent | commitPhysicalWrite =>
    simp only [Call.next, runCall, Managed.beginPhysicalWrite,
      Managed.claimExpiredPhysicalWriteIntent, Managed.commitPhysicalWrite]
    repeat' split
    all_goals rfl
  | renewPhysicalWriteIntent | abortPhysicalWrite | blockPhysicalWrite =>
    simp only [Call.next, runCall, Managed.renewPhysicalWriteIntent, Managed.abortPhysicalWrite,
      Managed.blockPhysicalWrite]
    split <;> rfl
  | _ => cases h

/-- The calls on routing epochs, multipart activities and list cursors. -/
def Call.onSessions : Call → Bool
  | .advanceRoutingEpoch .. | .beginMultipartActivity .. | .confirmMultipartActivity .. => true
  | .reconcileMultipartActivities .. | .finishMultipartActivity .. | .createListCursor .. => true
  | .createListCursorSuccessor .. | .useListCursor .. | .deleteListCursor .. => true
  | .cleanupExpiredListCursors .. => true
  | _ => false

theorem Call.next_onlySessions (h : c.onSessions = true) : OnlySessions s (c.next env s) := by
  cases c with
  | advanceRoutingEpoch =>
    simp only [Call.next, runCall, Managed.advanceRoutingEpoch]
    repeat' split
    all_goals rfl
  | beginMultipartActivity | confirmMultipartActivity | finishMultipartActivity =>
    simp only [Call.next, runCall, Managed.beginMultipartActivity, Managed.confirmMultipartActivity,
      Managed.finishMultipartActivity]
    split <;> rfl
  | reconcileMultipartActivities => rfl
  | createListCursor request now => exact (createListCursor_only env s request now).sessions
  | createListCursorSuccessor id request now =>
    exact (createListCursorSuccessor_only env s id request now).sessions
  | useListCursor id binding now => exact (useListCursor_only s id binding now).sessions
  | deleteListCursor id => exact (s.removeListCursor_only id).sessions
  | cleanupExpiredListCursors now limit =>
    exact (cleanupExpiredListCursors_only s now limit).sessions
  | _ => cases h

/-- The calls that change no object and no account. -/
theorem Call.next_same (ho : c.touchesObjects = false) (ha : c.touchesAccounts = false) :
    SameObjects s (c.next env s) ∧ SameAccounts s (c.next env s) := by
  by_cases hw : c.onWrites = true
  · rw [c.next_onlyWrites env s hw]
    exact ⟨⟨rfl, rfl⟩, rfl, rfl⟩
  by_cases hs : c.onSessions = true
  · rw [c.next_onlySessions env s hs]
    exact ⟨⟨rfl, rfl⟩, rfl, rfl⟩
  cases c with
  | markPurgeTargetDeleted =>
    simp only [Call.next, runCall, Managed.markPurgeTargetDeleted]
    split <;> exact ⟨⟨rfl, rfl⟩, rfl, rfl⟩
  | markPurgeTargetBlocked => exact ⟨⟨rfl, rfl⟩, rfl, rfl⟩
  | insertLogicalOperation | reserveLogicalOperation | recordLogicalUsage
  | transitionLogicalOperation | forgetPhysicalVersion => cases ha
  | _ => first | exact absurd rfl hw | exact absurd rfl hs | cases ho

theorem Call.next_objects (h : c.touchesObjects = false) : SameObjects s (c.next env s) := by
  by_cases ha : c.touchesAccounts = false
  · exact (c.next_same env s h ha).1
  cases c with
  | insertLogicalOperation | reserveLogicalOperation | recordLogicalUsage
  | transitionLogicalOperation =>
    simp only [Call.next, runCall, Managed.insertLogicalOperation, Managed.reserveLogicalOperation,
      Managed.recordLogicalUsage, Managed.transitionLogicalOperation]
    repeat' split
    all_goals exact ⟨rfl, rfl⟩
  | forgetPhysicalVersion target =>
    simp only [Call.next, runCall, Managed.forgetPhysicalVersion]
    split
    · exact ⟨rfl, rfl⟩
    split
    · exact ⟨rfl, rfl⟩
    obtain ⟨ha, hr⟩ := releaseAllocation_objects env
      { s with physicalVersions := s.physicalVersions.filter (· != target) }
      ‹Uuid› ‹ManagedLogicalOperation›
    exact ⟨ha, hr⟩
  | commitLogicalPut | commitLogicalDelete | proveLogicalAbort | purgeNamespace
  | namespacePurgeStatus => cases h
  | _ => exact absurd rfl ha

/-- The calls that may end a purge. -/
def Call.purging : Call → Bool
  | .purgeNamespace .. | .namespacePurgeStatus .. => true
  | _ => false

/-- **A purge call drops one tenant, whole, or changes no object and no account.** -/
theorem Call.next_purge (h : c.purging = true) :
    (SameObjects s (c.next env s) ∧ SameAccounts s (c.next env s)) ∨
      ∃ tenant, Drops env tenant s (c.next env s) := by
  cases c with
  | purgeNamespace request =>
    rw [Call.next, runCall]
    obtain e | e | ⟨-, -, e⟩ := purgeNamespace_ends env s request
    · rw [e]
      exact .inl ⟨.refl s, .refl s⟩
    · rw [e]
      exact finishPurge_cases env s request.operationId
    · rw [e]
      -- The namespace is fenced first; the fence and the purge row are no objects and no accounts.
      obtain ⟨ho, ha⟩ | ⟨tenant, h⟩ :=
        finishPurge_cases env (s.startPurge request) request.operationId
      · exact .inl ⟨⟨ho.1, ho.2⟩, ⟨ha.1, ha.2⟩⟩
      · exact .inr ⟨tenant, h.settled, h.authorities, h.repairs, h.logicalOperations,
          h.workspaceUsage⟩
  | namespacePurgeStatus request => exact finishPurge_cases env s request.operationId
  | _ => cases h

/-! ### Installing an authority -/

/-- `s'` has `authority` in place of what `s` had at its key, its publication repairs, and the
cleanups of what it replaced. -/
structure Installs (env : CallEnv) (epoch : Nat) (authority : ObjectAuthority)
    (s s' : MemoryState) : Prop where
  authorities : s'.authorities = s.authorities.insert authority.logical authority
  repairs : s'.repairs = (s.replaceAuthority env epoch authority
    (s.authorities.get? authority.logical)).repairs
  physicalVersions : s'.physicalVersions = s.physicalVersions

theorem MemoryState.replaceAuthority_installs (epoch : Nat) (authority : ObjectAuthority) :
    Installs env epoch authority s
      (s.replaceAuthority env epoch authority (s.authorities.get? authority.logical)) := by
  have h := s.replaceAuthority_only env epoch authority (s.authorities.get? authority.logical)
  exact ⟨h.authorities, rfl, h.physicalVersions⟩

theorem MemoryState.replaceAuthority_tombstone (epoch : Nat) (logical : LogicalObjectKey)
    (generation : Uuid) (placement : Placement) (now : Int) (cas : Option Nat)
    (existing : Option ObjectAuthority) :
    s.replaceAuthority env epoch
        ((ObjectAuthority.tombstoneOf logical generation placement now).stamp now cas existing)
        existing =
      (s.setAuthority ((ObjectAuthority.tombstoneOf logical generation placement now).stamp now cas
        existing)).cleanupReplaced env epoch existing := by
  have h : publicationRepairs env 0
      ((ObjectAuthority.tombstoneOf logical generation placement now).stamp now cas existing) =
      [] := by
    unfold publicationRepairs
    split
    · rename_i h
      cases h
    · rfl
  rw [replaceAuthority, h]
  rfl

/-- Would a publication at the key go through? -/
def MemoryState.publishable (s : MemoryState) (logical : LogicalObjectKey) (cas : Option Nat) :
    Bool :=
  !s.fenced logical.tenantId && (s.authorities.get? logical).map (·.casVersion) == cas

/-- Does a put pass its checks? -/
def MemoryState.puttable (s : MemoryState) (operationId : Uuid) (authority : ObjectAuthority)
    (allocated : Nat) : Bool :=
  (s.logicalOperations.get? operationId).any fun operation =>
    (s.commitPutChecks operation authority allocated).isOk

theorem publish_cases (authority : ObjectAuthority) (cas : Option Nat) :
    (publish env s authority cas).2 = s ∨ (s.publishable authority.logical cas = true ∧
      ∃ epoch, Installs env epoch
        (authority.stamp env.now cas (s.authorities.get? authority.logical)) s
          (publish env s authority cas).2 ∧
        SameAccounts s (publish env s authority cas).2) := by
  unfold publish
  split
  · exact .inl rfl
  rename_i hfence
  dsimp only
  split
  · exact .inl rfl
  rename_i hcas
  have hp : s.publishable authority.logical cas = true := by
    simp only [publishable, Bool.and_eq_true, Bool.not_eq_true', beq_iff_eq]
    exact ⟨Bool.eq_false_iff.mpr hfence, not_not.mp hcas⟩
  refine .inr ⟨hp, s.namespaceEpoch authority.logical.tenantId, ?_, ?_⟩
  · exact s.replaceAuthority_installs env _ _
  · have h := (s.replaceAuthority_only env (s.namespaceEpoch authority.logical.tenantId)
      (authority.stamp env.now cas (s.authorities.get? authority.logical))
      (s.authorities.get? authority.logical)).accounts
    exact ⟨h.1, h.2⟩

/-- A commit, of a put or of a delete, that installs `authority` for the operation: the slot was the
operation's, and the tenant's visible bytes trade the old live size for the new.  The slot is given
up and the operation `Committed`, unless the allocation overflows after the authority is in place.
-/
structure Commits (env : CallEnv) (operationId : Uuid) (operation : ManagedLogicalOperation)
    (authority : ObjectAuthority) (usage : ManagedWorkspaceUsage) (s s' : MemoryState) : Prop where
  found : s.logicalOperations.get? operationId = some operation
  unfinished : operation.state = .completing ∨ operation.state = .commitUnknown
  logical : authority.logical = operation.intent.logical
  generation : authority.generation = operation.intent.generation
  installs : ∃ cas epoch, Installs env epoch
    (authority.stamp env.now cas (s.authorities.get? authority.logical)) s s'
  active : (s.usageRow env.now operation.intent.logical.tenantId).activeOperationId =
    some operationId
  prior : liveSize (s.authorities.get? authority.logical) = operation.intent.priorLogicalSize
  visible : usage.visibleLogicalBytes + operation.intent.priorLogicalSize =
    (s.usageRow env.now operation.intent.logical.tenantId).visibleLogicalBytes +
      liveSize (some authority)
  workspaceUsage : s'.workspaceUsage =
    s.workspaceUsage.insert operation.intent.logical.tenantId usage
  settles : (usage.activeOperationId = some operationId ∧
      s'.logicalOperations = s.logicalOperations) ∨
    (usage.activeOperationId = none ∧ ∃ committed : ManagedLogicalOperation,
      committed.intent = operation.intent ∧ committed.state = .committed ∧
      s'.logicalOperations = s.logicalOperations.insert operationId committed)

/-- The common end of both commits: a usage row and perhaps the committed operation are written
over the state that has the new authority. -/
theorem commits_of_replace {operationId : Uuid}
    (authority : ObjectAuthority) (cas : Option Nat) (epoch : Nat)
    (hf : s.logicalOperations.get? operationId = some operation)
    (hst : operation.state = .completing ∨ operation.state = .commitUnknown)
    (hl : authority.logical = operation.intent.logical)
    (hg : authority.generation = operation.intent.generation)
    (hactive : (s.usageRow env.now operation.intent.logical.tenantId).activeOperationId =
      some operationId)
    (hmoved : s.authorityMoved operation.intent = false) (usage : ManagedWorkspaceUsage)
    (hv : usage.visibleLogicalBytes + operation.intent.priorLogicalSize =
      (s.usageRow env.now operation.intent.logical.tenantId).visibleLogicalBytes +
        liveSize (some authority)) {s' : MemoryState} (hs : s' = (s.replaceAuthority env epoch
        (authority.stamp env.now cas (s.authorities.get? authority.logical))
        (s.authorities.get? authority.logical)).setUsage operation.intent.logical.tenantId usage) :
    (usage.activeOperationId = some operationId →
      Commits env operationId operation authority usage s s') ∧
    ∀ committed : ManagedLogicalOperation, usage.activeOperationId = none →
      committed.intent = operation.intent → committed.state = .committed →
      Commits env operationId operation authority usage s
        (s'.setOperation operationId committed) := by
  subst hs
  have hi := s.replaceAuthority_installs env epoch
    (authority.stamp env.now cas (s.authorities.get? authority.logical))
  have ho := (s.replaceAuthority_only env epoch
    (authority.stamp env.now cas (s.authorities.get? authority.logical))
    (s.authorities.get? authority.logical)).accounts
  have hprior : liveSize (s.authorities.get? authority.logical) =
      operation.intent.priorLogicalSize := by
    rw [hl]
    exact liveSize_of_not_moved s hmoved
  have hu := congrArg (fun rows => rows.insert operation.intent.logical.tenantId usage) ho.2
  constructor
  · intro hk
    exact ⟨hf, hst, hl, hg, ⟨cas, epoch, hi.1, hi.2, hi.3⟩, hactive, hprior, hv, hu,
      .inl ⟨hk, ho.1⟩⟩
  · intro committed hk hint hcom
    exact ⟨hf, hst, hl, hg, ⟨cas, epoch, hi.1, hi.2, hi.3⟩, hactive, hprior, hv, hu,
      .inr ⟨hk, committed, hint, hcom,
        congrArg (fun rows => rows.insert operationId committed) ho.1⟩⟩

theorem commitLogicalPut_cases (operationId : Uuid) (authority : ObjectAuthority)
    (allocated : Nat) :
    (commitLogicalPut env s operationId authority allocated).2 = s ∨
    (∃ tenant, (commitLogicalPut env s operationId authority allocated).2 =
      s.touchUsage env.now tenant) ∨
    (s.puttable operationId authority allocated = true ∧ authority.tombstone = false ∧
      ∃ operation usage, Commits env operationId operation authority usage s
        (commitLogicalPut env s operationId authority allocated).2) := by
  unfold commitLogicalPut
  cases hf : s.logicalOperations.get? operationId with
  | none => exact .inl rfl
  | some operation =>
    dsimp only
    split
    · obtain h | h := replayCommit_cases env s operation _
      · exact .inl h
      · exact .inr (.inl ⟨_, h⟩)
    split
    · exact .inl rfl
    rename_i derived hchecks
    have hp : s.puttable operationId authority allocated = true := by
      simp only [puttable, hf, Option.any_some, hchecks]
      rfl
    obtain ⟨hl, hg, -, ht, hst, hmoved, -, -⟩ := commitPutChecks_ok s hchecks
    split
    · exact .inr (.inl ⟨_, rfl⟩)
    rename_i hslot
    have hactive := not_not.mp (not_or.mp hslot).1
    split
    · exact .inr (.inl ⟨_, rfl⟩)
    rename_i visible hvisible
    obtain ⟨rest, hsub, hadd⟩ := Option.bind_eq_some_iff.mp hvisible
    have hv : visible + operation.intent.priorLogicalSize =
        (s.usageRow env.now operation.intent.logical.tenantId).visibleLogicalBytes +
          liveSize (some authority) := by
      have h₁ := checkedSub_eq_some hsub
      have h₂ := checkedAdd_eq_some hadd
      simp only [liveSize, ht, Bool.false_eq_true, if_false]
      omega
    split
    · exact .inr (.inl ⟨_, rfl⟩)
    have hc := commits_of_replace env s authority
      operation.intent.expectedAuthorityCas operation.intent.fence.namespaceEpoch
      hf hst hl hg hactive hmoved
    refine .inr (.inr ⟨hp, ht, operation, ?_⟩)
    split
    · exact ⟨_, (hc _ hv rfl).1 hactive⟩
    split
    · exact ⟨_, (hc _ hv rfl).1 hactive⟩
    · exact ⟨_, (hc _ hv rfl).2 _ rfl rfl rfl⟩

theorem commitLogicalDelete_cases (operationId : Uuid) (placement : Placement) :
    (commitLogicalDelete env s operationId placement).2 = s ∨
    (∃ tenant, (commitLogicalDelete env s operationId placement).2 =
      s.touchUsage env.now tenant) ∨
    ∃ operation usage, Commits env operationId operation
      (.tombstoneOf operation.intent.logical operation.intent.generation placement env.now) usage s
        (commitLogicalDelete env s operationId placement).2 := by
  unfold commitLogicalDelete
  cases hf : s.logicalOperations.get? operationId with
  | none => exact .inl rfl
  | some operation =>
    dsimp only
    split
    · obtain h | h := replayCommit_cases env s operation _
      · exact .inl h
      · exact .inr (.inl ⟨_, h⟩)
    split
    · exact .inl rfl
    rename_i hdel
    split
    · exact .inl rfl
    split
    · exact .inl rfl
    rename_i hmoved
    split
    · exact .inr (.inl ⟨_, rfl⟩)
    rename_i hslot
    split
    · exact .inr (.inl ⟨_, rfl⟩)
    rename_i visible hvisible
    have hst : operation.state = .completing ∨ operation.state = .commitUnknown := by
      simp only [Bool.not_eq_true', Bool.not_eq_false,
        ManagedLogicalOperation.deletable, Bool.and_eq_true, Bool.or_eq_true,
        beq_iff_eq] at hdel
      exact hdel.2
    have hv : visible + operation.intent.priorLogicalSize =
        (s.usageRow env.now operation.intent.logical.tenantId).visibleLogicalBytes +
          0 := checkedSub_eq_some hvisible
    have hc := commits_of_replace env s
      (.tombstoneOf operation.intent.logical operation.intent.generation placement
        env.now)
      operation.intent.expectedAuthorityCas operation.intent.fence.namespaceEpoch
      hf hst rfl rfl (not_not.mp hslot) (Bool.eq_false_iff.mpr hmoved)
    rw [← replaceAuthority_tombstone]
    exact .inr (.inr ⟨operation, _, (hc _ hv rfl).2 _ rfl rfl rfl⟩)

/-- The authority that an installing call would put in place, before it is stamped. -/
def Call.candidate (env : CallEnv) (s : MemoryState) : Call → Option ObjectAuthority
  | .publish authority _ => some authority
  | .tombstone logical _ placement => some (.tombstoneOf logical (env.uuid 3) placement env.now)
  | .commitLogicalPut _ authority _ => some authority
  | .commitLogicalDelete id placement => (s.logicalOperations.get? id).map fun operation =>
    .tombstoneOf operation.intent.logical operation.intent.generation placement env.now
  | _ => none

/-- The calls that install an authority. -/
def Call.installing : Call → Bool
  | .publish .. | .tombstone .. | .commitLogicalPut .. | .commitLogicalDelete .. => true
  | _ => false

/-- Does the installing call pass the checks on the authority? -/
def Call.enabled (s : MemoryState) : Call → Bool
  | .publish authority cas => s.publishable authority.logical cas
  | .tombstone logical cas _ => s.publishable logical cas
  | .commitLogicalPut id authority allocated => s.puttable id authority allocated
  | _ => true

/-- **An installing call installs its candidate, or changes no object.** -/
theorem Call.next_installs (h : c.installing = true) :
    SameObjects s (c.next env s) ∨ ∃ authority cas epoch, c.candidate env s = some authority ∧
      c.enabled s = true ∧ Installs env epoch
        (authority.stamp env.now cas (s.authorities.get? authority.logical)) s (c.next env s) := by
  cases c with
  | publish authority cas =>
    obtain e | ⟨hp, epoch, hi, -⟩ := publish_cases env s authority cas
    · exact .inl (.of_eq e)
    · exact .inr ⟨authority, cas, epoch, rfl, hp, hi⟩
  | tombstone logical cas placement =>
    obtain e | ⟨hp, epoch, hi, -⟩ := publish_cases env s
      (.tombstoneOf logical (env.uuid 3) placement env.now) cas
    · exact .inl (.of_eq e)
    · exact .inr ⟨_, cas, epoch, rfl, hp, hi⟩
  | commitLogicalPut id authority allocated =>
    obtain e | ⟨tenant, e⟩ | ⟨hp, -, operation, usage, hc⟩ :=
      commitLogicalPut_cases env s id authority allocated
    · exact .inl (.of_eq e)
    · exact .inl (.of_touch e)
    · obtain ⟨cas, epoch, hi⟩ := hc.installs
      exact .inr ⟨authority, cas, epoch, rfl, hp, hi⟩
  | commitLogicalDelete id placement =>
    obtain e | ⟨tenant, e⟩ | ⟨operation, usage, hc⟩ := commitLogicalDelete_cases env s id placement
    · exact .inl (.of_eq e)
    · exact .inl (.of_touch e)
    · obtain ⟨cas, epoch, hi⟩ := hc.installs
      exact .inr ⟨_, cas, epoch, by rw [Call.candidate, hc.found]; rfl, rfl, hi⟩
  | _ => cases h

/-! ### Aborting an operation -/

/-- The repair rows after an abort: as they were, or with the cleanups of the allocation that the
abort was given. -/
def AbortRows (env : CallEnv) (physical : Option ManagedProvenPhysicalAllocation)
    (s s' : MemoryState) : Prop :=
  s'.repairs = s.repairs ∨ ∃ allocation epoch, physical = some allocation ∧
    s'.repairs =
      (insertLedgeredRepairs env.now epoch s (cleanupRepairs env 0 allocation.authority)).repairs

theorem proveLogicalAbort_cases (operationId : Uuid) (errorClass : String)
    (physical : Option ManagedProvenPhysicalAllocation) :
    (proveLogicalAbort env s operationId errorClass physical).2 = s ∧
      (∀ r, (proveLogicalAbort env s operationId errorClass physical).1 = .ok r →
        s.logicalOperations.get? operationId = some r ∧ r.state = .provenAborted) ∨
    ∃ operation usage proven, s.logicalOperations.get? operationId = some operation ∧
      operation.state.terminal = false ∧
      (proven = true ↔
        ∃ r, (proveLogicalAbort env s operationId errorClass physical).1 = .ok r) ∧
      Aborts env operationId operation usage proven s
        (proveLogicalAbort env s operationId errorClass physical).2 ∧
      AbortRows env physical s (proveLogicalAbort env s operationId errorClass physical).2 := by
  unfold proveLogicalAbort
  cases hf : s.logicalOperations.get? operationId with
  | none => exact .inl ⟨rfl, fun _ h => by cases h⟩
  | some operation =>
    dsimp only
    split
    · rename_i hs
      exact .inl ⟨rfl, fun _ h => by cases h; exact ⟨rfl, hs⟩⟩
    rename_i hp
    split
    · exact .inl ⟨rfl, fun _ h => by cases h⟩
    rename_i hc
    have hterm : operation.state.terminal = false := by
      cases h : operation.state <;> simp_all [ManagedLogicalOperationState.terminal]
    split
    · exact .inl ⟨rfl, fun _ h => by cases h⟩
    · cases physical with
      | none =>
        dsimp only
        split
        · exact .inl ⟨rfl, fun _ h => by cases h⟩
        obtain ⟨usage, proven, hiff, ha, hr⟩ := settleAbort_cases env s operationId
          operation errorClass 0
        exact .inr ⟨operation, usage, proven, rfl, hterm, hiff, ha, .inl hr⟩
      | some physical =>
        cases hphys : s.abortAllocation operation physical with
        | error =>
          simp only [hphys]
          exact .inl ⟨trivial, fun _ h => by cases h⟩
        | ok derived =>
          simp only [hphys]
          -- The cleanups come first; they change nothing that settling the abort reads.
          have ho := insertLedgeredRepairs_only env.now operation.intent.fence.namespaceEpoch s
            (cleanupRepairs env 0 physical.authority)
          obtain ⟨usage, proven, hiff, ha, hr⟩ := settleAbort_cases env
            (insertLedgeredRepairs env.now operation.intent.fence.namespaceEpoch s
              (cleanupRepairs env 0 physical.authority)) operationId operation errorClass
              derived
          have hacc := ho.accounts
          have hrow : ∀ t, usageRow (insertLedgeredRepairs env.now
              operation.intent.fence.namespaceEpoch s
              (cleanupRepairs env 0 physical.authority)) env.now t = s.usageRow env.now t := by
            intro t
            unfold usageRow
            rw [hacc.2]
          refine .inr ⟨operation, usage, proven, rfl, hterm, hiff, ?_,
            .inr ⟨physical, _, rfl, hr⟩⟩
          obtain ⟨h₁, h₂, h₃, h₄, h₅⟩ := ha
          rw [hrow] at h₃ h₄ h₅
          rw [hacc.1] at h₄ h₅
          rw [hacc.2] at h₂
          exact ⟨h₁.trans ho.authorities, h₂, h₃, h₄, h₅⟩

end S4.Managed
