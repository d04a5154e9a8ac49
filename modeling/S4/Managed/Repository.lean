import S4.Managed.Repairs

/-!
# Managed — Repository

The calls of `InMemoryManagedRepository`, each as a function of the state under the repository's
lock.  A call returns its result and the state it leaves; a call that fails after it has changed
something leaves the change behind, as the source does.  Guards stand in the order of the source,
and `workspace_usage` rows are created where the source creates them, also on a path that fails
later.
-/

namespace S4.Managed

open Lib

/-- The result of a repository call and the state it leaves. -/
abbrev Outcome (α : Type) : Type := Except ManagedError α × MemoryState

def managedVisibleLimitBytes : Nat := 1024 * 1024 * 1024
def managedReplacementHeadroomBytes : Nat := 128 * 1024 * 1024
def physicalWriteLeaseMs : Int := 2 * 60 * 60 * 1000

variable (env : CallEnv) (s : MemoryState)

/-! ### Workspace usage -/

/-- The usage row of a tenant that has none yet. -/
def ManagedWorkspaceUsage.initial (now : Int) (tenant : String) : ManagedWorkspaceUsage where
  tenantId := tenant
  visibleLogicalBytes := 0
  physicalAllocatedBytes := 0
  reservedBytes := 0
  visibleLimitBytes := managedVisibleLimitBytes
  replacementHeadroomBytes := managedReplacementHeadroomBytes
  activeOperationId := none
  version := 1
  createdAtMs := now
  updatedAtMs := now

namespace MemoryState

/-- The tenant's usage row, or the one that `workspace_usage` would create. -/
def usageRow (now : Int) (tenant : String) : ManagedWorkspaceUsage :=
  (s.workspaceUsage.get? tenant).getD (.initial now tenant)

def setUsage (tenant : String) (usage : ManagedWorkspaceUsage) : MemoryState :=
  { s with workspaceUsage := s.workspaceUsage.insert tenant usage }

/-- `Self::workspace_usage`: make sure that the tenant has a row. -/
def touchUsage (now : Int) (tenant : String) : MemoryState :=
  s.setUsage tenant (s.usageRow now tenant)

def setOperation (operationId : Uuid) (operation : ManagedLogicalOperation) : MemoryState :=
  { s with logicalOperations := s.logicalOperations.insert operationId operation }

/-- Has the tenant been fenced or rerouted since the intent was made? -/
def routeChanged (intent : ManagedLogicalOperationIntent) : Bool :=
  s.fenced intent.logical.tenantId ||
    s.namespaceEpoch intent.logical.tenantId != intent.fence.namespaceEpoch ||
    s.routingEpoch intent.logical.tenantId != intent.fence.routingEpoch

/-- The physical versions that the operation's child write left in the ledger. -/
def childVersionCount (intent : ManagedLogicalOperationIntent) : Nat :=
  (s.physicalVersions.filter fun target =>
    target.writeOperationId == intent.primaryChildOperationId &&
      target.tenantId == intent.logical.tenantId && target.backendId == intent.backendId &&
      target.providerBucket == intent.providerBucket &&
      target.physicalKey == intent.physicalKey).length

end MemoryState

/-- The logical size that an authority contributes: none if it is absent or a tombstone. -/
def liveSize : Option ObjectAuthority → Nat
  | none => 0
  | some a => if a.tombstone then 0 else a.size

def physicalAllocation (expectedSize exactVersionCount : Nat) : Except ManagedError Nat :=
  if exactVersionCount = 0 then
    .error (.persistence "managed logical operation cannot settle before its child is ledgered")
  else match checkedMul 64 expectedSize exactVersionCount with
    | some n => .ok n
    | none => .error .quotaExceeded

/-! ### Opening a logical operation -/

def validateLogicalIntent (intent : ManagedLogicalOperationIntent) : Bool :=
  !(intent.logical.tenantId.isEmpty || intent.logical.bucket.isEmpty ||
    intent.backendId.isEmpty || intent.providerBucket.isEmpty || intent.physicalKey.isEmpty ||
    intent.fence.namespaceEpoch == 0 || intent.fence.routingEpoch == 0 ||
    intent.rateVersion ≤ 0 || intent.occurredAtMs < 0 || intent.requestKind != .write ||
    !((intent.kind == .put && intent.route == .putObject) ||
      (intent.kind == .delete && intent.route == .deleteObject)))

/-- The operation row that a new intent starts with. -/
def ManagedLogicalOperation.initial (now : Int) (intent : ManagedLogicalOperationIntent) :
    ManagedLogicalOperation where
  intent := intent
  evidence := none
  reservedPhysicalBytes := 0
  committedPhysicalBytes := 0
  releasedPhysicalBytes := 0
  state := .intent
  committedAuthorityVersion := none
  settlementState := .pending
  lastErrorClass := none
  createdAtMs := now
  updatedAtMs := now
  committedAtMs := none
  abortedAtMs := none

/-- Is the receipt or the child write of the intent already spoken for? -/
def MemoryState.intentTaken (intent : ManagedLogicalOperationIntent) : Bool :=
  (s.logicalOperations.any fun operation =>
    operation.intent.receiptId == intent.receiptId ||
      operation.intent.primaryChildOperationId == intent.primaryChildOperationId) ||
    s.physicalWriteIntents.contains intent.primaryChildOperationId ||
    s.physicalVersions.any fun target => target.writeOperationId == intent.primaryChildOperationId

/-- Opens an operation, or returns the one that the same intent has opened. -/
def insertLogicalOperation (intent : ManagedLogicalOperationIntent) :
    Outcome ManagedLogicalOperation :=
  if !validateLogicalIntent intent then (.error .conflict, s)
  else if s.fenced intent.logical.tenantId then (.error .namespaceFenced, s)
  else if intent.fence ≠
      ⟨s.namespaceEpoch intent.logical.tenantId, s.routingEpoch intent.logical.tenantId⟩ then
    (.error .conflict, s)
  else match s.logicalOperations.get? intent.operationId with
    | some existing => if existing.intent = intent then (.ok existing, s) else (.error .conflict, s)
    | none =>
      if s.intentTaken intent then (.error .conflict, s)
      else
        let operation := ManagedLogicalOperation.initial env.now intent
        (.ok operation, s.setOperation intent.operationId operation)

/-- Takes the tenant's mutation slot, and reserves the bytes of the operation. -/
def reserveLogicalOperation (operationId : Uuid)
    (physicalBytes : Nat) : Outcome ManagedWorkspaceUsage :=
  match s.logicalOperations.get? operationId with
  | none => (.error .conflict, s)
  | some operation =>
    if s.routeChanged operation.intent then (.error .namespaceFenced, s)
    else
      let tenant := operation.intent.logical.tenantId
      let usage := s.usageRow env.now tenant
      let touched := s.touchUsage env.now tenant
      if operation.state = .open ∧ operation.reservedPhysicalBytes = physicalBytes ∧
          usage.activeOperationId = some operationId then (.ok usage, touched)
      else if operation.state ≠ .intent then
        (.error (.invalidTransition operation.state .open), touched)
      else if usage.activeOperationId.isSome then (.error .mutationInProgress, touched)
      else match checkedAdd 64 usage.visibleLimitBytes usage.replacementHeadroomBytes,
          checkedAdd 64 usage.reservedBytes physicalBytes with
        | some bound, some reserved =>
          if (checkedAdd 64 usage.physicalAllocatedBytes reserved).all (· > bound) then
            (.error .quotaExceeded, touched)
          else
            let usage := { usage with
              reservedBytes := reserved
              activeOperationId := some operationId
              version := satAdd 64 usage.version 1
              updatedAtMs := env.now }
            (.ok usage, (s.setUsage tenant usage).setOperation operationId
              { operation with
                reservedPhysicalBytes := physicalBytes
                state := .open
                updatedAtMs := env.now })
        | _, _ => (.error .quotaExceeded, touched)

/-- May this evidence be recorded for the operation? -/
def ManagedLogicalOperation.acceptsEvidence (operation : ManagedLogicalOperation)
    (evidence : ManagedUsageEvidence) : Bool :=
  !(operation.evidence.isSome || operation.state == .intent || operation.state.terminal ||
    evidence.processedBytes > operation.intent.maxProcessedBytes ||
    (operation.intent.kind == .put && evidence.expectedOutputDigest.isNone) ||
    (operation.intent.kind == .delete && (evidence.expectedOutputSize != 0 ||
      evidence.sourceBytes != 0 || evidence.processedBytes != 0)))

def recordLogicalUsage (operationId : Uuid)
    (evidence : ManagedUsageEvidence) : Outcome ManagedLogicalOperation :=
  if evidence.processedBytes ≠ max evidence.sourceBytes evidence.expectedOutputSize then
    (.error .conflict, s)
  else match s.logicalOperations.get? operationId with
    | none => (.error .conflict, s)
    | some operation =>
      if operation.evidence = some evidence then (.ok operation, s)
      else if !operation.acceptsEvidence evidence then (.error .conflict, s)
      else
        let operation := { operation with evidence := some evidence, updatedAtMs := env.now }
        (.ok operation, s.setOperation operationId operation)

def transitionLogicalOperation (operationId : Uuid)
    (source target : ManagedLogicalOperationState) (errorClass : Option String) :
    Outcome ManagedLogicalOperation :=
  if !validLogicalTransition source target then (.error (.invalidTransition source target), s)
  else match s.logicalOperations.get? operationId with
    | none => (.error .conflict, s)
    | some operation =>
      if operation.state ≠ source then (.error .conflict, s)
      else
        let operation := { operation with
          state := target
          lastErrorClass := errorClass.map fun value => String.ofList (value.toList.take 128)
          updatedAtMs := env.now }
        (.ok operation, s.setOperation operationId operation)

/-! ### Installing an authority -/

/-- The authority under its new compare-and-swap version and timestamps. -/
def ObjectAuthority.stamp (authority : ObjectAuthority) (now : Int) (expectedCas : Option Nat)
    (existing : Option ObjectAuthority) : ObjectAuthority :=
  { authority with
    casVersion := satAdd 64 (expectedCas.getD 0) 1
    createdAtMs := existing.elim now (·.createdAtMs)
    updatedAtMs := now }

/-- The authority after a change in place. -/
def ObjectAuthority.bump (authority : ObjectAuthority) (now : Int) : ObjectAuthority :=
  { authority with casVersion := satAdd 64 authority.casVersion 1, updatedAtMs := now }

/-- The tombstone that a delete installs. -/
def ObjectAuthority.tombstoneOf (logical : LogicalObjectKey) (generation : Uuid)
    (placement : Placement) (now : Int) : ObjectAuthority where
  logical := logical
  generation := generation
  digest := ""
  size := 0
  metadata := []
  placementVersion := placement.version
  primaryBackendId := placement.primaryBackendId
  primaryVersionId := none
  replicaBackendId := placement.replicaBackendId
  primaryStatus := .absent
  replicaStatus := .absent
  tombstone := true
  casVersion := 0
  createdAtMs := now
  updatedAtMs := now

def MemoryState.setAuthority (authority : ObjectAuthority) : MemoryState :=
  { s with authorities := s.authorities.insert authority.logical authority }

variable [Sha256]

/-- Enqueue the cleanups of a replaced authority, unless it was absent or a tombstone. -/
def MemoryState.cleanupReplaced (s : MemoryState) (env : CallEnv) (epoch : Nat)
    (existing : Option ObjectAuthority) : MemoryState :=
  match existing with
  | none => s
  | some a => if a.tombstone then s
      else insertLedgeredRepairs env.now epoch s (cleanupRepairs env 1 a)

theorem MemoryState.cleanupReplaced_only (s : MemoryState) (env : CallEnv) (epoch : Nat)
    (existing : Option ObjectAuthority) : OnlyRepairs s (s.cleanupReplaced env epoch existing) := by
  unfold cleanupReplaced
  split
  · exact .refl s
  · split
    · exact .refl s
    · exact insertLedgeredRepairs_only env.now epoch s _

/-- Install an authority, with its publication repairs and the cleanups of the one it replaces. -/
def MemoryState.replaceAuthority (s : MemoryState) (env : CallEnv) (epoch : Nat)
    (authority : ObjectAuthority) (existing : Option ObjectAuthority) : MemoryState :=
  (insertRepairs env.now epoch (s.setAuthority authority)
    (publicationRepairs env 0 authority)).cleanupReplaced env epoch existing

theorem MemoryState.replaceAuthority_only (s : MemoryState) (env : CallEnv) (epoch : Nat)
    (authority : ObjectAuthority) (existing : Option ObjectAuthority) :
    OnlyRepairs (s.setAuthority authority) (s.replaceAuthority env epoch authority existing) :=
  (insertRepairs_only env.now epoch _ _).trans (cleanupReplaced_only _ env epoch existing)

/-- Installs an authority, if the one in place has the expected version. -/
def publish (authority : ObjectAuthority) (expectedCas : Option Nat) : Outcome ObjectAuthority :=
  if s.fenced authority.logical.tenantId then (.error .namespaceFenced, s)
  else
    let existing := s.authorities.get? authority.logical
    if existing.map (·.casVersion) ≠ expectedCas then (.error .conflict, s)
    else
      let authority := authority.stamp env.now expectedCas existing
      (.ok authority, s.replaceAuthority env (s.namespaceEpoch authority.logical.tenantId) authority
        existing)

def tombstone (logical : LogicalObjectKey)
    (expectedCas : Option Nat) (placement : Placement) : Outcome ObjectAuthority :=
  publish env s (.tombstoneOf logical (env.uuid 3) placement env.now) expectedCas

def advancePlacementVersion (logical : LogicalObjectKey)
    (expectedCas : Nat) (placement : Placement) : Outcome ObjectAuthority :=
  if s.fenced logical.tenantId then (.error .namespaceFenced, s)
  else match s.authorities.get? logical with
    | none => (.error .conflict, s)
    | some authority =>
      if authority.tombstone ∨ authority.casVersion ≠ expectedCas ∨
          placement.version ≤ authority.placementVersion ∨
          !authority.locationsMatch placement.primaryBackendId placement.replicaBackendId then
        (.error .conflict, s)
      else
        let authority := { authority with placementVersion := placement.version }.bump env.now
        (.ok authority, { s with authorities := s.authorities.insert logical authority })

/-! ### Settling a logical operation -/

/-- Does the authority at the operation's key still have the version and size that the intent was
made against? -/
def MemoryState.authorityMoved (intent : ManagedLogicalOperationIntent) : Bool :=
  let existing := s.authorities.get? intent.logical
  existing.map (·.casVersion) != intent.expectedAuthorityCas ||
    liveSize existing != intent.priorLogicalSize

/-- A commit of an operation that is already committed: the persisted authority, if it is still the
operation's own. -/
def MemoryState.replayCommit (s : MemoryState) (env : CallEnv)
    (operation : ManagedLogicalOperation) (accept : ObjectAuthority → Bool) :
    Outcome ManagedOperationCommit :=
  match s.authorities.get? operation.intent.logical with
  | none => (.error .conflict, s)
  | some persisted =>
    if !accept persisted then (.error .conflict, s)
    else
      let tenant := operation.intent.logical.tenantId
      (.ok ⟨operation, persisted, s.usageRow env.now tenant⟩, s.touchUsage env.now tenant)

/-- The checks of `commit_logical_put` up to the usage row; the derived physical allocation. -/
def MemoryState.commitPutChecks (operation : ManagedLogicalOperation)
    (authority : ObjectAuthority) (physicalAllocatedBytes : Nat) : Except ManagedError Nat :=
  match operation.evidence with
  | none => .error .conflict
  | some evidence =>
    if operation.intent.kind ≠ .put ∨
        (operation.state ≠ .completing ∧ operation.state ≠ .commitUnknown) ∨
        authority.logical ≠ operation.intent.logical ∨
        authority.generation ≠ operation.intent.generation ∨
        authority.primaryBackendId ≠ operation.intent.backendId ∨ authority.tombstone ∨
        evidence.expectedOutputDigest ≠ some authority.digest ∨
        evidence.expectedOutputSize ≠ authority.size then .error .conflict
    else if s.routeChanged operation.intent then .error .namespaceFenced
    else match physicalAllocation authority.size (s.childVersionCount operation.intent) with
      | .error e => .error e
      | .ok derived =>
        if physicalAllocatedBytes ≠ derived ∨ derived > operation.reservedPhysicalBytes then
          .error .conflict
        else if s.authorityMoved operation.intent then .error .conflict
        else .ok derived

/-- Installs the authority of a put and settles its operation. -/
def commitLogicalPut (operationId : Uuid)
    (authority : ObjectAuthority) (physicalAllocatedBytes : Nat) :
    Outcome ManagedOperationCommit :=
  match s.logicalOperations.get? operationId with
  | none => (.error .conflict, s)
  | some operation =>
    if operation.state = .committed then
      s.replayCommit env operation fun persisted =>
        persisted.generation == operation.intent.generation &&
          operation.committedPhysicalBytes == physicalAllocatedBytes
    else match s.commitPutChecks operation authority physicalAllocatedBytes with
      | .error e => (.error e, s)
      | .ok derived =>
        let tenant := operation.intent.logical.tenantId
        let existing := s.authorities.get? authority.logical
        let usage := s.usageRow env.now tenant
        let touched := s.touchUsage env.now tenant
        if usage.activeOperationId ≠ some operationId ∨
            usage.reservedBytes < operation.reservedPhysicalBytes then
          (.error .conflict, touched)
        else match (checkedSub usage.visibleLogicalBytes operation.intent.priorLogicalSize).bind
            (checkedAdd 64 · authority.size) with
          | none => (.error .quotaExceeded, touched)
          | some visible =>
            if visible > usage.visibleLimitBytes then (.error .quotaExceeded, touched)
            else
              let authority :=
                authority.stamp env.now operation.intent.expectedAuthorityCas existing
              let s := s.replaceAuthority env operation.intent.fence.namespaceEpoch authority
                existing
              -- From here on an error leaves the new authority in place.
              match checkedAdd 64 usage.physicalAllocatedBytes derived with
              | none => (.error .quotaExceeded,
                  s.setUsage tenant { usage with visibleLogicalBytes := visible })
              | some allocated =>
                match checkedSub usage.reservedBytes operation.reservedPhysicalBytes with
                | none => (.error .conflict, s.setUsage tenant { usage with
                    visibleLogicalBytes := visible, physicalAllocatedBytes := allocated })
                | some reserved =>
                  let usage := { usage with
                    visibleLogicalBytes := visible
                    physicalAllocatedBytes := allocated
                    reservedBytes := reserved
                    activeOperationId := none
                    version := satAdd 64 usage.version 1
                    updatedAtMs := env.now }
                  let operation := { operation with
                    state := .committed
                    committedPhysicalBytes := derived
                    committedAuthorityVersion := some authority.casVersion
                    updatedAtMs := env.now
                    committedAtMs := some env.now }
                  (.ok ⟨operation, authority, usage⟩,
                    (s.setUsage tenant usage).setOperation operationId operation)

/-- Is the operation a delete that may be committed? -/
def ManagedLogicalOperation.deletable (operation : ManagedLogicalOperation) : Bool :=
  operation.intent.kind == .delete && operation.reservedPhysicalBytes == 0 &&
    (operation.evidence.any fun evidence => evidence.expectedOutputSize == 0 &&
      evidence.sourceBytes == 0 && evidence.processedBytes == 0) &&
    (operation.state == .completing || operation.state == .commitUnknown)

def commitLogicalDelete (operationId : Uuid)
    (placement : Placement) : Outcome ManagedOperationCommit :=
  match s.logicalOperations.get? operationId with
  | none => (.error .conflict, s)
  | some operation =>
    if operation.state = .committed then
      s.replayCommit env operation fun persisted =>
        persisted.tombstone && persisted.generation == operation.intent.generation
    else if !operation.deletable then
      (.error (.invalidTransition operation.state .committed), s)
    else if s.routeChanged operation.intent then (.error .namespaceFenced, s)
    else if s.authorityMoved operation.intent then (.error .conflict, s)
    else
      let tenant := operation.intent.logical.tenantId
      let existing := s.authorities.get? operation.intent.logical
      let usage := s.usageRow env.now tenant
      let touched := s.touchUsage env.now tenant
      if usage.activeOperationId ≠ some operationId then (.error .conflict, touched)
      else match checkedSub usage.visibleLogicalBytes operation.intent.priorLogicalSize with
        | none => (.error .conflict, touched)
        | some visible =>
          let authority := (ObjectAuthority.tombstoneOf operation.intent.logical
            operation.intent.generation placement env.now).stamp env.now
              operation.intent.expectedAuthorityCas existing
          let s := (s.setAuthority authority).cleanupReplaced env
            operation.intent.fence.namespaceEpoch existing
          let usage := { usage with
            visibleLogicalBytes := visible
            activeOperationId := none
            version := satAdd 64 usage.version 1
            updatedAtMs := env.now }
          let operation := { operation with
            state := .committed
            committedAuthorityVersion := some authority.casVersion
            updatedAtMs := env.now
            committedAtMs := some env.now }
          (.ok ⟨operation, authority, usage⟩,
            (s.setUsage tenant usage).setOperation operationId operation)

/-- The checks of `prove_logical_abort` on a claimed allocation; the derived allocation. -/
def MemoryState.abortAllocation (operation : ManagedLogicalOperation)
    (physical : ManagedProvenPhysicalAllocation) : Except ManagedError Nat :=
  match operation.evidence with
  | none => .error .conflict
  | some evidence =>
    match physicalAllocation physical.authority.size (s.childVersionCount operation.intent) with
    | .error e => .error e
    | .ok derived =>
      if physical.authority.logical ≠ operation.intent.logical ∨
          physical.authority.generation ≠ operation.intent.generation ∨
          physical.authority.primaryBackendId ≠ operation.intent.backendId ∨
          physical.authority.tombstone ∨
          evidence.expectedOutputSize ≠ physical.authority.size ∨
          evidence.expectedOutputDigest ≠ some physical.authority.digest ∨
          physical.allocatedBytes ≠ derived ∨
          derived > operation.reservedPhysicalBytes then .error .conflict
      else .ok derived

/-- The part of `prove_logical_abort` after the allocation is settled. -/
def MemoryState.settleAbort (s : MemoryState) (env : CallEnv) (operationId : Uuid)
    (operation : ManagedLogicalOperation) (errorClass : String) (allocated : Nat) :
    Outcome ManagedLogicalOperation :=
  let tenant := operation.intent.logical.tenantId
  let usage := s.usageRow env.now tenant
  let touched := s.touchUsage env.now tenant
  if operation.state ≠ .intent ∧ usage.activeOperationId ≠ some operationId then
    (.error .conflict, touched)
  else match checkedSub usage.reservedBytes operation.reservedPhysicalBytes with
    | none => (.error .conflict, touched)
    | some reserved =>
      let usage := { usage with reservedBytes := reserved }
      match checkedAdd 64 usage.physicalAllocatedBytes allocated with
      | none => (.error .quotaExceeded, s.setUsage tenant usage)
      | some total =>
        let usage := { usage with
          physicalAllocatedBytes := total
          activeOperationId :=
            if usage.activeOperationId = some operationId then none
            else usage.activeOperationId
          version := satAdd 64 usage.version 1
          updatedAtMs := env.now }
        let operation := { operation with
          state := .provenAborted
          committedPhysicalBytes := allocated
          settlementState := .released
          lastErrorClass := some (String.ofList (errorClass.toList.take 128))
          updatedAtMs := env.now
          abortedAtMs := some env.now }
        (.ok operation, (s.setUsage tenant usage).setOperation operationId operation)

/-- Settles an operation as aborted, and queues the cleanup of what it has written. -/
def proveLogicalAbort (operationId : Uuid) (errorClass : String)
    (physical : Option ManagedProvenPhysicalAllocation) : Outcome ManagedLogicalOperation :=
  match s.logicalOperations.get? operationId with
  | none => (.error .conflict, s)
  | some operation =>
    if operation.state = .provenAborted then (.ok operation, s)
    else if operation.state = .committed then
      (.error (.invalidTransition operation.state .provenAborted), s)
    else if s.namespaceEpoch operation.intent.logical.tenantId ≠
        operation.intent.fence.namespaceEpoch then (.error .conflict, s)
    else match physical with
      | none =>
        if s.childVersionCount operation.intent ≠ 0 then (.error .conflict, s)
        else s.settleAbort env operationId operation errorClass 0
      | some physical =>
        match s.abortAllocation operation physical with
        | .error e => (.error e, s)
        | .ok derived =>
          (insertLedgeredRepairs env.now operation.intent.fence.namespaceEpoch s
            (cleanupRepairs env 0 physical.authority)).settleAbort env operationId operation
              errorClass derived

/-! ### Repairs -/

/-- Queues a repair that the ledger or the authority still backs. -/
def enqueue (repair : RepairRecord) : Outcome Unit :=
  if s.fenced repair.logical.tenantId then (.error .namespaceFenced, s)
  else
    let epoch := s.namespaceEpoch repair.logical.tenantId
    if repair.kind = .deleteGeneration then
      let targets := s.physicalVersions.filter fun target =>
        target.tenantId == repair.logical.tenantId && target.backendId == repair.targetBackendId &&
          target.physicalKey == repair.physicalKey
      if targets.isEmpty then (.ok (), s)
      else if targets.any fun target => target.namespaceEpoch != epoch then (.error .conflict, s)
      else (.ok (), insertMemoryRepair env.now s (repair.underEpoch epoch))
    else if (s.authorities.get? repair.logical).all fun authority =>
        authority.generation != repair.generation ||
          authority.casVersion != repair.authorityCasVersion then (.error .conflict, s)
    else (.ok (), insertMemoryRepair env.now s (repair.underEpoch epoch))

/-- May the row be claimed now? -/
def MemoryState.claimable (now : Int) (row : RepairRecord × RepairStatus) : Bool :=
  !s.fenced row.1.logical.tenantId &&
    s.namespaceEpoch row.1.logical.tenantId == row.1.namespaceEpoch &&
    (row.2 == .pending || (row.2 == .leased && row.1.leaseExpiresAtMs.any (· ≤ now))) &&
    row.1.notBeforeMs ≤ now

/-- The record as it is handed to the worker that claimed it. -/
def RepairRecord.lease (repair : RepairRecord) (token : Uuid) (owner : String)
    (leaseUntilMs now : Int) : RepairRecord :=
  { repair with
    id := token, leaseOwner := some owner, leaseToken := some token
    leaseExpiresAtMs := some leaseUntilMs, updatedAtMs := now }

/-- The record without its lease. -/
def RepairRecord.unlease (repair : RepairRecord) (now : Int) : RepairRecord :=
  { repair with
    leaseOwner := none, leaseToken := none, leaseExpiresAtMs := none, updatedAtMs := now }

/-- Leases the claimable repairs, those that have waited longest first. -/
def claimRepairs (owner : String) (leaseUntilMs : Int)
    (limit : Nat) : Outcome (List RepairRecord) :=
  let candidates := (s.repairs.toList.filter fun row => s.claimable env.now row.2).insertionSort
    fun a b => a.2.1.updatedAtMs ≤ b.2.1.updatedAtMs
  let claimed := (candidates.take limit).zipIdx.map fun row =>
    (row.1.1, row.1.2.1.lease (env.uuid row.2) owner leaseUntilMs env.now)
  (.ok (claimed.map Prod.snd),
    { s with repairs := claimed.foldl (fun rows c => rows.insert c.1 (c.2, .leased)) s.repairs })

/-- The leased row that holds a live lease token. -/
def MemoryState.leasedRow (now : Int) (leaseToken : Uuid) : Option (Uuid × RepairRecord) :=
  match s.repairs.findEntry fun row => row.1.leaseToken == some leaseToken with
  | none => none
  | some (key, repair, status) =>
    if status ≠ .leased ∨ repair.leaseExpiresAtMs.all (· ≤ now) then none
    else some (key, repair)

def renewRepair (leaseToken : Uuid) (leaseUntilMs : Int) : Outcome Unit :=
  match s.leasedRow env.now leaseToken with
  | none => (.error .conflict, s)
  | some (key, repair) =>
    let repair := { repair with
      leaseExpiresAtMs := some leaseUntilMs, updatedAtMs := env.now }
    (.ok (), { s with repairs := s.repairs.insert key (repair, .leased) })

/-- Gives the repair back for a later attempt, or up after the last one. -/
def failRepair (leaseToken : Uuid) : Outcome Unit :=
  match s.leasedRow env.now leaseToken with
  | none => (.error .conflict, s)
  | some (key, repair) =>
    let attempts := satAdd 32 repair.attempts 1
    let repair := { repair.unlease env.now with attempts := attempts }
    let row :=
      if attempts ≥ maxRepairAttempts then ({ repair with notBeforeMs := 0 }, RepairStatus.dead)
      else ({ repair with notBeforeMs := satAddInt 64 env.now (repairBackoffMs attempts) },
        RepairStatus.pending)
    (.ok (), { s with repairs := s.repairs.insert key row })

/-- The authority that a finished copy or placement repair applies to: live, and still of the
generation and version that the repair was made for. -/
def MemoryState.repairable (repair : RepairRecord) : Option ObjectAuthority :=
  if repair.kind = .deleteGeneration then none
  else (s.authorities.get? repair.logical).filter fun authority =>
    authority.generation == repair.generation &&
      authority.casVersion == repair.authorityCasVersion && !authority.tombstone

/-- Does the row wait for the cut-over that `repair` has just finished? -/
def waitsFor (repair : RepairRecord) (row : RepairRecord × RepairStatus) : Bool :=
  row.2 == .waitingCutover && row.1.logical == repair.logical &&
    row.1.generation == repair.generation && row.1.placementVersion == repair.placementVersion

def MemoryState.activateCleanups (repair : RepairRecord) : MemoryState :=
  { s with repairs := s.repairs.mapValues fun _ row =>
      if waitsFor repair row then (row.1, .pending) else row }

/-- A cleanup as it is parked for the placement that `repair` is a leg of. -/
def RepairRecord.parkedFor (cleanup repair : RepairRecord) : RepairRecord :=
  { cleanup with
    namespaceEpoch := repair.namespaceEpoch, placementVersion := repair.placementVersion }

/-- Park the cleanups of the locations that a placement leg left. -/
def MemoryState.parkCleanups (repair : RepairRecord) (cleanups : List RepairRecord) : MemoryState :=
  cleanups.foldl (fun s cleanup =>
    insertMemoryWaitingPlacementCleanup s (cleanup.parkedFor repair)) s

omit [Sha256] in
theorem MemoryState.parkCleanups_only (repair : RepairRecord)
    (cleanups : List RepairRecord) : OnlyRepairs s (s.parkCleanups repair cleanups) :=
  .foldl (fun s _ => insertMemoryWaitingPlacementCleanup_only s _) cleanups s

/-- The part of `complete_repair` after its row is `DONE`. -/
def MemoryState.applyRepair (s : MemoryState) (env : CallEnv) (repair : RepairRecord) :
    Outcome Bool :=
  match s.repairable repair with
  | none => (.ok false, s)
  | some previous =>
    match applyRepairToAuthority previous repair with
    | .error e => (.error e, s)
    | .ok (false, _) => (.ok false, s)
    | .ok (true, moved) =>
      let authority := moved.bump env.now
      let s := { s with authorities := s.authorities.insert repair.logical authority }
      if repair.kind = .placement then
        let s := s.parkCleanups repair (placementCleanupRepairs env previous authority)
        (.ok true, if authority.placementVersion = repair.placementVersion then
          s.activateCleanups repair else s)
      else (.ok true, s)

def completeRepair (repair : RepairRecord) : Outcome Bool :=
  if repair.leaseToken ≠ some repair.id then (.error .conflict, s)
  else if s.namespaceEpoch repair.logical.tenantId ≠ repair.namespaceEpoch then
    (.error .conflict, s)
  else match s.repairs.get? repair.repairId with
    | none => (.error .conflict, s)
    | some (stored, status) =>
      if status ≠ .leased ∨ stored.leaseToken ≠ some repair.id ∨
          stored.leaseExpiresAtMs.all (· ≤ env.now) then (.error .conflict, s)
      else
        { s with repairs := s.repairs.insert repair.repairId (stored.unlease env.now, .done) }
          |>.applyRepair env repair

/-! ### Physical writes -/

def validatePhysicalIntent (intent : PhysicalWriteIntent) : Bool :=
  !(intent.tenantId.isEmpty || intent.backendId.isEmpty || intent.providerBucket.isEmpty ||
    intent.physicalKey.isEmpty || intent.credentialEpoch == 0 ||
    intent.storageIdentity.providerKind.isEmpty ||
    intent.storageIdentity.providerInstanceId.isEmpty ||
    intent.storageIdentity.providerAccountId.isEmpty ||
    intent.storageIdentity.canonicalEndpoint.isEmpty || intent.storageIdentity.region.isEmpty)

/-- Is the write the child of an operation that does not, or no longer, allow it? -/
def MemoryState.parentForbids (intent : PhysicalWriteIntent) : Bool :=
  match s.logicalOperations.findEntry fun operation =>
    operation.intent.primaryChildOperationId == intent.intentId with
  | none => false
  | some (_, parent) =>
    parent.state != .open ||
      (s.workspaceUsage.get? intent.tenantId).all (fun usage =>
        usage.activeOperationId != some parent.intent.operationId) ||
      parent.intent.logical.tenantId != intent.tenantId ||
      parent.intent.backendId != intent.backendId ||
      parent.intent.providerBucket != intent.providerBucket ||
      parent.intent.physicalKey != intent.physicalKey ||
      s.namespaceEpoch intent.tenantId != parent.intent.fence.namespaceEpoch ||
      s.routingEpoch intent.tenantId != parent.intent.fence.routingEpoch

/-- Opens a write intent under a new lease, or returns the lease it has. -/
def beginPhysicalWrite (intent : PhysicalWriteIntent) : Outcome PhysicalWriteLease :=
  if !validatePhysicalIntent intent then (.error .conflict, s)
  else if s.fenced intent.tenantId then (.error .namespaceFenced, s)
  else if s.parentForbids intent then (.error .conflict, s)
  else
    let epoch := s.namespaceEpoch intent.tenantId
    match s.physicalWriteIntents.get? intent.intentId with
    | some existing =>
      if existing ≠ intent ∨ s.physicalWriteEpochs.get? intent.intentId ≠ some epoch then
        (.error .conflict, s)
      else match s.physicalWriteTokens.get? intent.intentId with
        | none => (.error .conflict, s)
        | some token => (.ok ⟨intent.intentId, epoch, existing.leaseOwner, token⟩, s)
    | none =>
      let token := env.uuid 0
      (.ok ⟨intent.intentId, epoch, intent.leaseOwner, token⟩, { s with
        physicalWriteIntents := s.physicalWriteIntents.insert intent.intentId intent
        physicalWriteLeases := s.physicalWriteLeases.insert intent.intentId
          (satAddInt 64 env.now physicalWriteLeaseMs)
        physicalWriteTokens := s.physicalWriteTokens.insert intent.intentId token
        physicalWriteEpochs := s.physicalWriteEpochs.insert intent.intentId epoch })

/-- Is the lease the current one of its intent, of the same namespace epoch and not expired? -/
def MemoryState.leaseHeld (now : Int) (lease : PhysicalWriteLease) : Bool :=
  s.physicalWriteTokens.get? lease.intentId == some lease.token &&
    s.physicalWriteEpochs.get? lease.intentId == some lease.namespaceEpoch &&
    (s.physicalWriteLeases.get? lease.intentId).any (now < ·)

/-- Does the intent of the lease exist, held by the lease's owner? -/
def MemoryState.leaseOwned (lease : PhysicalWriteLease) : Bool :=
  (s.physicalWriteIntents.get? lease.intentId).any fun intent => intent.leaseOwner == lease.owner

def MemoryState.dropIntent (intentId : Uuid) : MemoryState :=
  { s with
    physicalWriteIntents := s.physicalWriteIntents.erase intentId
    blockedWriteIntents := s.blockedWriteIntents.erase intentId
    physicalWriteLeases := s.physicalWriteLeases.erase intentId
    physicalWriteTokens := s.physicalWriteTokens.erase intentId
    physicalWriteEpochs := s.physicalWriteEpochs.erase intentId }

def renewPhysicalWriteIntent (lease : PhysicalWriteLease) (leaseExpiresAtMs : Int) : Outcome Unit :=
  if !(s.leaseOwned lease && s.leaseHeld env.now lease) then (.error .conflict, s)
  else (.ok (), { s with
    physicalWriteLeases := s.physicalWriteLeases.insert lease.intentId leaseExpiresAtMs })

def claimExpiredPhysicalWriteIntent (intentId : Uuid)
    (owner : String) (leaseExpiresAtMs : Int) : Outcome (Option PhysicalWriteLease) :=
  if (s.physicalWriteLeases.get? intentId).all (env.now < ·) then (.ok none, s)
  else match s.physicalWriteEpochs.get? intentId, s.physicalWriteIntents.get? intentId with
    | some epoch, some intent =>
      let token := env.uuid 0
      (.ok (some ⟨intentId, epoch, owner, token⟩), { s with
        physicalWriteIntents :=
          s.physicalWriteIntents.insert intentId { intent with leaseOwner := owner }
        physicalWriteTokens := s.physicalWriteTokens.insert intentId token
        physicalWriteLeases := s.physicalWriteLeases.insert intentId leaseExpiresAtMs })
    | _, _ => (.error .conflict, s)

/-- The ledger row of one version that a write left. -/
def PhysicalWriteIntent.target (intent : PhysicalWriteIntent) (lease : PhysicalWriteLease)
    (versionId : Option String) : PhysicalVersionTarget where
  tenantId := intent.tenantId
  namespaceEpoch := lease.namespaceEpoch
  backendId := intent.backendId
  storageIdentity := intent.storageIdentity
  credentialEpoch := intent.credentialEpoch
  providerBucket := intent.providerBucket
  physicalKey := intent.physicalKey
  versionId := versionId
  versioningMode := intent.versioningMode
  versioningCapability := intent.versioningCapability
  writeOperationId := lease.intentId

def PhysicalVersionTarget.sameVersion (a b : PhysicalVersionTarget) : Bool :=
  a.tenantId == b.tenantId && a.backendId == b.backendId &&
    a.providerBucket == b.providerBucket && a.physicalKey == b.physicalKey &&
    a.versionId == b.versionId

def pushTarget (ledger : List PhysicalVersionTarget) (target : PhysicalVersionTarget) :
    List PhysicalVersionTarget :=
  if ledger.any (·.sameVersion target) then ledger else ledger ++ [target]

/-- Ledgers the versions of a write and drops its intent. -/
def commitPhysicalWrite (lease : PhysicalWriteLease)
    (supersededVersionIds : List String) (versionId : Option String) : Outcome Unit :=
  if supersededVersionIds.any (·.isEmpty) || versionId.any (·.isEmpty) then (.error .conflict, s)
  else if !s.leaseHeld env.now lease then (.error .conflict, s)
  else match (s.physicalWriteIntents.get? lease.intentId).filter (·.leaseOwner == lease.owner) with
    | none => (.error .conflict, s)
    | some intent =>
      let versions := supersededVersionIds.map some ++ [versionId]
      (.ok (), { s.dropIntent lease.intentId with
        physicalVersions := versions.foldl
          (fun ledger version => pushTarget ledger (intent.target lease version))
          s.physicalVersions })

def abortPhysicalWrite (lease : PhysicalWriteLease) : Outcome Unit :=
  if !s.leaseHeld env.now lease then (.error .conflict, s)
  else (.ok (), s.dropIntent lease.intentId)

def blockPhysicalWrite (lease : PhysicalWriteLease) (reason : String) : Outcome Unit :=
  if !s.leaseHeld env.now lease then (.error .conflict, s)
  else (.ok (), { s with
    blockedWriteIntents := s.blockedWriteIntents.insert lease.intentId reason })

/-- Give back the allocation of an operation whose last physical version is gone. -/
def MemoryState.releaseAllocation (s : MemoryState) (env : CallEnv) (operationId : Uuid)
    (operation : ManagedLogicalOperation) : Outcome Unit :=
  match checkedSub operation.committedPhysicalBytes operation.releasedPhysicalBytes with
  | none => (.error (.corrupt "managed operation released bytes exceed committed bytes"), s)
  | some released =>
    if released = 0 then (.ok (), s)
    else
      let tenant := operation.intent.logical.tenantId
      let usage := s.usageRow env.now tenant
      match checkedSub usage.physicalAllocatedBytes released with
      | none => (.error (.corrupt "managed physical usage is below the child allocation"),
          s.touchUsage env.now tenant)
      | some allocated =>
        (.ok (), (s.setUsage tenant { usage with
            physicalAllocatedBytes := allocated
            version := satAdd 64 usage.version 1
            updatedAtMs := env.now }).setOperation operationId { operation with
          releasedPhysicalBytes := operation.committedPhysicalBytes
          updatedAtMs := env.now })

/-- Removes a version from the ledger; with the last one of a write its bytes are given back. -/
def forgetPhysicalVersion (target : PhysicalVersionTarget) : Outcome Unit :=
  let remaining := s.physicalVersions.filter (· != target)
  let s' := { s with physicalVersions := remaining }
  if remaining.length = s.physicalVersions.length ∨
      remaining.any (·.writeOperationId == target.writeOperationId) then (.ok (), s')
  else match s.logicalOperations.findEntry fun operation =>
      operation.intent.primaryChildOperationId == target.writeOperationId with
    | none => (.ok (), s')
    | some (operationId, operation) => s'.releaseAllocation env operationId operation

/-! ### Namespaces -/

def advanceRoutingEpoch (tenant : String) (expectedRoutingEpoch : Nat) :
    Outcome ManagedRouteFence :=
  if s.fenced tenant then (.error .namespaceFenced, s)
  else if s.routingEpoch tenant ≠ expectedRoutingEpoch then (.error .conflict, s)
  else match checkedAdd 64 (s.routingEpoch tenant) 1 with
    | none => (.error (.corrupt "managed routing epoch overflow"), s)
    | some epoch => (.ok ⟨s.namespaceEpoch tenant, epoch⟩,
        { s with routingEpochs := s.routingEpochs.insert tenant epoch })

/-- The reason of a blocked write intent of the tenant, if it has one. -/
def MemoryState.blockedReason (tenant : String) : Option String :=
  s.blockedWriteIntents.toList.findSome? fun entry =>
    ((s.physicalWriteIntents.get? entry.1).filter (·.tenantId == tenant)).map fun _ => entry.2

/-- Does the tenant still own a write intent, a physical version or a multipart activity? -/
def MemoryState.ownsStorage (tenant : String) : Bool :=
  (s.physicalWriteIntents.any (·.tenantId == tenant)) ||
    (s.physicalVersions.any (·.tenantId == tenant)) ||
    s.multipartActivities.any (·.1 == tenant)

def MemoryState.setPurgeStatus (operationId : Uuid) (status : NamespacePurgeStatus) : MemoryState :=
  { s with purges := s.purges.modify operationId fun purge => { purge with status := status } }

/-- Drop everything that the tenant has: the last step of a purge. -/
def MemoryState.dropNamespace (s : MemoryState) (env : CallEnv) (tenant : String) : MemoryState :=
  let cursors := s.listCursors.retain fun _ cursor => cursor.binding.tenantId != tenant
  { s with
    authorities := s.authorities.retain fun logical _ => logical.tenantId != tenant
    repairs := s.repairs.retain fun _ row => row.1.logical.tenantId != tenant
    logicalOperations := s.logicalOperations.mapValues fun _ operation =>
      if operation.intent.logical.tenantId = tenant then
        { operation with
          releasedPhysicalBytes := operation.committedPhysicalBytes, updatedAtMs := env.now }
      else operation
    workspaceUsage := s.workspaceUsage.modify tenant fun usage =>
      { usage with
        visibleLogicalBytes := 0, physicalAllocatedBytes := 0, reservedBytes := 0
        activeOperationId := none
        version := satAdd 64 usage.version 1, updatedAtMs := env.now }
    listCursors := cursors
    listCursorSuccessors := s.listCursorSuccessors.retain fun predecessor successor =>
      cursors.contains predecessor && cursors.contains successor
    fencedNamespaces := s.fencedNamespaces.erase tenant
    namespaceEpochs := s.namespaceEpochs.insert tenant (s.namespaceEpoch tenant + 1)
    routingEpochs := s.routingEpochs.insert tenant (s.routingEpoch tenant + 1) }

/-- Completes a purge that nothing holds up any more. -/
def finishPurge (operationId : Uuid) : NamespacePurgeStatus × MemoryState :=
  match s.purges.get? operationId with
  | none => (.blocked "managed namespace purge operation was not found", s)
  | some purge =>
    match purge.status with
    | .complete deletedVersions => (.complete deletedVersions, s)
    | status =>
      match s.blockedReason purge.tenantId with
      | some reason => (.blocked reason, s.setPurgeStatus operationId (.blocked reason))
      | none =>
        if s.logicalOperations.any fun operation =>
            operation.intent.logical.tenantId == purge.tenantId &&
              !operation.state.terminal then
          let blocked := NamespacePurgeStatus.blocked
            "managed namespace has unresolved logical operations"
          (blocked, s.setPurgeStatus operationId blocked)
        else if s.ownsStorage purge.tenantId then (status, s)
        else
          let complete := NamespacePurgeStatus.complete purge.deletedVersions
          (complete, (s.dropNamespace env purge.tenantId).setPurgeStatus operationId complete)

/-- The backends that must have a ledger row before the tenant can be purged. -/
def ObjectAuthority.requiredBackends (authority : ObjectAuthority) : List String :=
  authority.primaryBackendId :: ((authority.replicaBackendId.filter fun _ =>
    authority.replicaStatus == .ready).toList)

/-- A backend on which a live authority of the tenant has no ledger row. -/
def MemoryState.unledgered (tenant : String) : Option String :=
  (s.authorities.values.filter fun a => a.logical.tenantId == tenant && !a.tombstone).findSome?
    fun a => a.requiredBackends.find? fun backend =>
      !(s.physicalVersions.any fun target => target.tenantId == tenant &&
        target.backendId == backend &&
        target.physicalKey == generationPhysicalKey a.logical a.generation)

/-- Fences the tenant and starts its purge, or looks at the one that runs. -/
def purgeNamespace (request : NamespacePurgeRequest) : NamespacePurgeStatus × MemoryState :=
  match s.purges.get? request.operationId with
  | some purge =>
    if purge.tenantId ≠ request.tenantId then
      (.blocked "purge operation belongs to another namespace", s)
    else finishPurge env s request.operationId
  | none =>
    if s.fenced request.tenantId then
      (.blocked "another managed namespace purge is already running", s)
    else match s.unledgered request.tenantId with
      | some backend =>
        (.blocked ("managed authority references unledgered physical versions on backend " ++
          backend), s)
      | none =>
        finishPurge env { s with
          fencedNamespaces := s.fencedNamespaces.insert request.tenantId request.operationId
          purges := s.purges.insert request.operationId ⟨request.tenantId, .running, 0⟩ }
          request.operationId

def markPurgeTargetDeleted (request : NamespacePurgeRequest)
    (target : PhysicalVersionTarget) : MemoryState :=
  let remaining := s.physicalVersions.filter (· != target)
  let s' := { s with physicalVersions := remaining }
  if remaining.length = s.physicalVersions.length then s'
  else { s' with purges := s.purges.modify request.operationId fun purge =>
    { purge with deletedVersions := satAdd 64 purge.deletedVersions 1, status := .running } }

def markPurgeTargetBlocked (request : NamespacePurgeRequest) (reason : String) : MemoryState :=
  s.setPurgeStatus request.operationId (.blocked reason)

/-! ### Multipart activities -/

def beginMultipartActivity (uploadId tenant : String) : Outcome Nat :=
  if s.fenced tenant then (.error .namespaceFenced, s)
  else
    let epoch := s.namespaceEpoch tenant
    (.ok epoch, { s with
      multipartActivities := s.multipartActivities.insert uploadId (tenant, epoch)
      multipartRegistrationExpiry := s.multipartRegistrationExpiry.insert uploadId
        (satAddInt 64 env.now (10 * 60 * 1000)) })

def confirmMultipartActivity (uploadId tenant : String) (epoch : Nat) : Outcome Unit :=
  if s.fenced tenant ∨ s.multipartActivities.get? uploadId ≠ some (tenant, epoch) then
    (.error .namespaceFenced, s)
  else (.ok (), { s with
    confirmedMultipartActivities := uploadId :: s.confirmedMultipartActivities
    multipartRegistrationExpiry := s.multipartRegistrationExpiry.erase uploadId })

def reconcileMultipartActivities (limit : Nat) : MemoryState :=
  let expired := ((s.multipartRegistrationExpiry.toList.filter (·.2 ≤ env.now)).take limit).map
    Prod.fst
  { s with
    multipartActivities := expired.foldl (fun m id => m.erase id) s.multipartActivities
    multipartRegistrationExpiry :=
      expired.foldl (fun m id => m.erase id) s.multipartRegistrationExpiry }

def finishMultipartActivity (uploadId tenant : String) (epoch : Nat) : MemoryState :=
  if s.multipartActivities.get? uploadId = some (tenant, epoch) then
    { s with
      multipartActivities := s.multipartActivities.erase uploadId
      confirmedMultipartActivities := s.confirmedMultipartActivities.filter (· != uploadId)
      multipartRegistrationExpiry := s.multipartRegistrationExpiry.erase uploadId }
  else s

end S4.Managed
