import S4.Managed.Cursors
import S4.Lib.Reach

/-!
# Managed — Calls

The repository as a transition system.  A step is one call under the repository's lock (`Call`,
`Call.next`), at some time and with fresh identifiers, or a rehash: a Rust `HashMap` visits its
entries in no specified order, so between two calls the order of every map may change
(`SameContents`).  `Reach` at this step relation is the set of states that any interleaving of calls
by any number of clients can produce, since each call holds the lock from start to end.

What one call can do to the state is said in `S4.Managed.Effects`.
-/

namespace S4.Managed

open Lib

/-- The calls of the repository that change its state. -/
inductive Call where
  | insertLogicalOperation (intent : ManagedLogicalOperationIntent)
  | reserveLogicalOperation (operationId : Uuid) (physicalBytes : Nat)
  | recordLogicalUsage (operationId : Uuid) (evidence : ManagedUsageEvidence)
  | transitionLogicalOperation (operationId : Uuid) (source target : ManagedLogicalOperationState)
      (errorClass : Option String)
  | commitLogicalPut (operationId : Uuid) (authority : ObjectAuthority) (allocated : Nat)
  | commitLogicalDelete (operationId : Uuid) (placement : Placement)
  | proveLogicalAbort (operationId : Uuid) (errorClass : String)
      (physical : Option ManagedProvenPhysicalAllocation)
  | publish (authority : ObjectAuthority) (expectedCas : Option Nat)
  | tombstone (logical : LogicalObjectKey) (expectedCas : Option Nat) (placement : Placement)
  | advancePlacementVersion (logical : LogicalObjectKey) (expectedCas : Nat) (placement : Placement)
  | enqueue (repair : RepairRecord)
  | claimRepairs (owner : String) (leaseUntilMs : Int) (limit : Nat)
  | renewRepair (leaseToken : Uuid) (leaseUntilMs : Int)
  | failRepair (leaseToken : Uuid)
  | completeRepair (repair : RepairRecord)
  | beginPhysicalWrite (intent : PhysicalWriteIntent)
  | renewPhysicalWriteIntent (lease : PhysicalWriteLease) (leaseExpiresAtMs : Int)
  | claimExpiredPhysicalWriteIntent (intentId : Uuid) (owner : String) (leaseExpiresAtMs : Int)
  | commitPhysicalWrite (lease : PhysicalWriteLease) (supersededVersionIds : List String)
      (versionId : Option String)
  | abortPhysicalWrite (lease : PhysicalWriteLease)
  | blockPhysicalWrite (lease : PhysicalWriteLease) (reason : String)
  | forgetPhysicalVersion (target : PhysicalVersionTarget)
  | advanceRoutingEpoch (tenant : String) (expectedRoutingEpoch : Nat)
  | purgeNamespace (request : NamespacePurgeRequest)
  | namespacePurgeStatus (request : NamespacePurgeRequest)
  | markPurgeTargetDeleted (request : NamespacePurgeRequest) (target : PhysicalVersionTarget)
  | markPurgeTargetBlocked (request : NamespacePurgeRequest) (reason : String)
  | beginMultipartActivity (uploadId tenant : String)
  | confirmMultipartActivity (uploadId tenant : String) (epoch : Nat)
  | reconcileMultipartActivities (limit : Nat)
  | finishMultipartActivity (uploadId tenant : String) (epoch : Nat)
  | createListCursor (request : ManagedListCursorRequest) (nowMs : Int)
  | createListCursorSuccessor (predecessor : Uuid) (request : ManagedListCursorRequest)
    (nowMs : Int)
  | useListCursor (cursorId : Uuid) (binding : ManagedListCursorBinding) (nowMs : Int)
  | deleteListCursor (cursorId : Uuid)
  | cleanupExpiredListCursors (nowMs : Int) (limit : Nat)

variable {s : MemoryState} {C : MemoryState → Event → Prop} {script : Script}

section Runs

variable [Sha256]

/-- An outcome without its value. -/
def Outcome.unit {α : Type} (o : Outcome α) : Outcome Unit := (o.1.map fun _ => (), o.2)

/-- The call, run in a state. -/
def runCall (env : CallEnv) (s : MemoryState) : Call → Outcome Unit
  | .insertLogicalOperation intent => (insertLogicalOperation env s intent).unit
  | .reserveLogicalOperation id bytes => (reserveLogicalOperation env s id bytes).unit
  | .recordLogicalUsage id evidence => (recordLogicalUsage env s id evidence).unit
  | .transitionLogicalOperation id source target error =>
    (transitionLogicalOperation env s id source target error).unit
  | .commitLogicalPut id authority allocated => (commitLogicalPut env s id authority allocated).unit
  | .commitLogicalDelete id placement => (commitLogicalDelete env s id placement).unit
  | .proveLogicalAbort id error physical => (proveLogicalAbort env s id error physical).unit
  | .publish authority cas => (publish env s authority cas).unit
  | .tombstone logical cas placement => (tombstone env s logical cas placement).unit
  | .advancePlacementVersion logical cas placement =>
    (advancePlacementVersion env s logical cas placement).unit
  | .enqueue repair => (enqueue env s repair).unit
  | .claimRepairs owner deadline limit => (claimRepairs env s owner deadline limit).unit
  | .renewRepair token deadline => (renewRepair env s token deadline).unit
  | .failRepair token => (failRepair env s token).unit
  | .completeRepair repair => (completeRepair env s repair).unit
  | .beginPhysicalWrite intent => (beginPhysicalWrite env s intent).unit
  | .renewPhysicalWriteIntent lease deadline => (renewPhysicalWriteIntent env s lease deadline).unit
  | .claimExpiredPhysicalWriteIntent id owner deadline =>
    (claimExpiredPhysicalWriteIntent env s id owner deadline).unit
  | .commitPhysicalWrite lease superseded version =>
    (commitPhysicalWrite env s lease superseded version).unit
  | .abortPhysicalWrite lease => (abortPhysicalWrite env s lease).unit
  | .blockPhysicalWrite lease reason => (blockPhysicalWrite env s lease reason).unit
  | .forgetPhysicalVersion target => (forgetPhysicalVersion env s target).unit
  | .advanceRoutingEpoch tenant epoch => (advanceRoutingEpoch s tenant epoch).unit
  | .beginMultipartActivity upload tenant => (beginMultipartActivity env s upload tenant).unit
  | .confirmMultipartActivity upload tenant epoch =>
    (confirmMultipartActivity s upload tenant epoch).unit
  | .createListCursor request now => (createListCursor env s request now).unit
  | .createListCursorSuccessor predecessor request now =>
    (createListCursorSuccessor env s predecessor request now).unit
  | .useListCursor cursor binding now => (useListCursor s cursor binding now).unit
  -- the calls that return `Ok` on every path
  | .purgeNamespace request => (.ok (), (purgeNamespace env s request).2)
  | .namespacePurgeStatus request => (.ok (), (finishPurge env s request.operationId).2)
  | .markPurgeTargetDeleted request target => (.ok (), markPurgeTargetDeleted s request target)
  | .markPurgeTargetBlocked request reason => (.ok (), markPurgeTargetBlocked s request reason)
  | .reconcileMultipartActivities limit => (.ok (), reconcileMultipartActivities env s limit)
  | .finishMultipartActivity upload tenant epoch =>
    (.ok (), finishMultipartActivity s upload tenant epoch)
  | .deleteListCursor cursor => (.ok (), deleteListCursor s cursor)
  | .cleanupExpiredListCursors now limit => (.ok (), cleanupExpiredListCursors s now limit)

/-- The state that a call leaves. -/
def Call.next (env : CallEnv) (s : MemoryState) (c : Call) : MemoryState := (runCall env s c).2

/-- The result of a call, without its value. -/
def Call.result (env : CallEnv) (s : MemoryState) (c : Call) : Except ManagedError Unit :=
  (runCall env s c).1

/-! ### Steps -/

/-- The identifiers of a call are new: pairwise distinct, and none names a repair row. -/
structure CallEnv.Fresh (env : CallEnv) (s : MemoryState) : Prop where
  injective : Function.Injective env.uuid
  unused : ∀ n, s.repairs.get? (env.uuid n) = none

/-- The identifier of a record that the caller has made for this call. -/
def Call.newRow : Call → Option Uuid
  | .enqueue repair => some repair.repairId
  | _ => none

/-- A record handed to `enqueue` has just been made, under a fresh identifier. -/
def Call.fresh (s : MemoryState) (c : Call) : Bool :=
  c.newRow.all fun id => !s.repairs.contains id

/-- Two states that differ in the iteration order of their maps only. -/
structure SameContents (s s' : MemoryState) : Prop where
  authorities : s.authorities.SameEntries s'.authorities
  logicalOperations : s.logicalOperations.SameEntries s'.logicalOperations
  workspaceUsage : s.workspaceUsage.SameEntries s'.workspaceUsage
  repairs : s.repairs.SameEntries s'.repairs
  physicalWriteIntents : s.physicalWriteIntents.SameEntries s'.physicalWriteIntents
  blockedWriteIntents : s.blockedWriteIntents.SameEntries s'.blockedWriteIntents
  physicalWriteLeases : s.physicalWriteLeases.SameEntries s'.physicalWriteLeases
  physicalWriteTokens : s.physicalWriteTokens.SameEntries s'.physicalWriteTokens
  physicalWriteEpochs : s.physicalWriteEpochs.SameEntries s'.physicalWriteEpochs
  physicalVersions : s'.physicalVersions = s.physicalVersions
  fencedNamespaces : s.fencedNamespaces.SameEntries s'.fencedNamespaces
  purges : s.purges.SameEntries s'.purges
  namespaceEpochs : s.namespaceEpochs.SameEntries s'.namespaceEpochs
  routingEpochs : s.routingEpochs.SameEntries s'.routingEpochs
  multipartActivities : s.multipartActivities.SameEntries s'.multipartActivities
  confirmedMultipartActivities :
    s'.confirmedMultipartActivities = s.confirmedMultipartActivities
  multipartRegistrationExpiry :
    s.multipartRegistrationExpiry.SameEntries s'.multipartRegistrationExpiry
  listCursors : s.listCursors.SameEntries s'.listCursors
  listCursorSuccessors : s.listCursorSuccessors.SameEntries s'.listCursorSuccessors

/-- What happens in one step. -/
inductive Event where
  | call (env : CallEnv) (c : Call)
  | rehash

/-- The steps of the repository. -/
inductive Step : MemoryState → Event → MemoryState → Prop where
  | call {s : MemoryState} {env : CallEnv} {c : Call} (he : env.Fresh s) (hc : c.fresh s) :
      Step s (.call env c) (c.next env s)
  | rehash {s s' : MemoryState} (h : SameContents s s') : Step s .rehash s'

/-- The repository starts empty. -/
def Init (s : MemoryState) : Prop := s = .new

/-! ### Concrete runs -/

/-- The clock at `now`, and identifiers counted from `base`. -/
def CallEnv.counting (now : Int) (base : Nat) : CallEnv := ⟨now, fun n => ⟨base + n⟩⟩

omit [Sha256] in
theorem CallEnv.counting_fresh (now : Int) {base : Nat}
    (h : ∀ k ∈ s.repairs.keys, k.val < base) : (CallEnv.counting now base).Fresh s := by
  refine ⟨fun m n e => ?_, fun n => ?_⟩
  · have := congrArg Uuid.val e
    simpa [counting] using this
  · cases hg : s.repairs.get? ((CallEnv.counting now base).uuid n) with
    | none => rfl
    | some =>
      have hk := h _ (List.mem_map.mpr ⟨_, KeyMap.mem_toList_iff.mpr hg, rfl⟩)
      exact absurd hk (by simp [counting])

/-- Calls at given times, each with identifiers counted from a given number. -/
abbrev Script : Type := List (Int × Nat × Call)

/-- The state after a call of a script. -/
def Script.next (s : MemoryState) : Int × Nat × Call → MemoryState
  | (now, base, c) => c.next (.counting now base) s

/-- The call counts its identifiers from above the rows it finds. -/
def Script.fresh (s : MemoryState) : Int × Nat × Call → Bool
  | (_, base, c) => (s.repairs.keys.all fun k => k.val < base) && c.fresh s

theorem Script.step (x : Int × Nat × Call) (h : Script.fresh s x = true) :
    Step s (.call (.counting x.1 x.2.1) x.2.2) (Script.next s x) := by
  simp only [Script.fresh, Bool.and_eq_true, List.all_eq_true, decide_eq_true_eq] at h
  exact .call (CallEnv.counting_fresh x.1 h.1) h.2

end Runs

/-- The key that the concrete runs write: `k` in bucket `b` of tenant `t`. -/
def sampleKey : LogicalObjectKey := ⟨"t", "b", "k"⟩

/-- A digest function that is right about `sampleKey`. -/
abbrev sampleSha256 : Sha256 :=
  ⟨fun _ => [0x22, 0x57, 0x99, 0xd7, 0x31, 0x99, 0x80, 0xaf, 0xd6, 0xdb, 0x1f, 0xc7, 0xe2, 0xce,
    0x82, 0xc8, 0x74, 0x5d, 0xf2, 0x6d, 0x99, 0x7a, 0x16, 0xe3, 0xca, 0x98, 0xc1, 0x1d, 0x7c, 0x0e,
    0x29, 0x25]⟩

/-- The end of a script that is run on the empty repository. -/
def runSample (script : Script) : MemoryState :=
  letI := sampleSha256
  script.foldl Script.next .new

/-- Every call of the script is fresh in the state it finds. -/
def Script.plays (script : Script) : Bool :=
  letI := sampleSha256
  Lib.plays Script.next Script.fresh .new script

/-- A script runs, under a condition that all its calls meet in every state. -/
theorem guarded_runSample (h : script.plays = true)
    (hC : ∀ entry ∈ script, ∀ s, C s (.call (.counting entry.1 entry.2.1) entry.2.2)) :
    letI := sampleSha256
    Reach Init (Guarded Step C) (runSample script) :=
  letI := sampleSha256
  Reach.script (.init rfl) h fun s x hx hf => ⟨_, Script.step x hf, hC x hx s⟩

theorem reach_runSample (h : script.plays = true) : letI := sampleSha256
    Reach Init Step (runSample script) :=
  letI := sampleSha256
  (guarded_runSample (C := fun _ _ => True) h fun _ _ _ => trivial).of_guarded

/-- A live authority of `sampleKey`, primary on `a` and replica on `b`. -/
def sampleAuthority : ObjectAuthority where
  logical := sampleKey
  generation := ⟨1⟩
  digest := "d"
  size := 3
  metadata := []
  placementVersion := 1
  primaryBackendId := "a"
  primaryVersionId := some "v"
  replicaBackendId := some "b"
  primaryStatus := .ready
  replicaStatus := .ready
  tombstone := false
  casVersion := 0
  createdAtMs := 0
  updatedAtMs := 0

/-- The put of `sampleAuthority`, and the physical write that is its child. -/
def sampleIntent : ManagedLogicalOperationIntent where
  operationId := ⟨101⟩
  receiptId := ⟨102⟩
  logical := sampleKey
  kind := .put
  generation := ⟨1⟩
  fence := ⟨1, 1⟩
  expectedAuthorityCas := none
  priorLogicalSize := 0
  primaryChildOperationId := ⟨103⟩
  backendId := "a"
  providerBucket := "pb"
  physicalKey := letI := sampleSha256; generationPhysicalKey sampleKey ⟨1⟩
  occurredAtMs := 0
  rateVersion := 1
  route := .putObject
  requestKind := .write
  maxProcessedBytes := 64

def sampleWrite : PhysicalWriteIntent where
  intentId := ⟨103⟩
  tenantId := "t"
  backendId := "a"
  storageIdentity := ⟨"s3", "instance", "account", "endpoint", "r"⟩
  credentialEpoch := 1
  providerBucket := "pb"
  physicalKey := letI := sampleSha256; generationPhysicalKey sampleKey ⟨1⟩
  versioningMode := .enabled
  versioningCapability := .required
  leaseOwner := "gateway"

/-- Reserve, write, record the usage and commit: `sampleAuthority` is published at version 1. -/
def putScript : Script :=
  [(0, 10, .insertLogicalOperation sampleIntent),
   (1, 10, .reserveLogicalOperation ⟨101⟩ 64),
   (2, 10, .beginPhysicalWrite sampleWrite),
   (3, 10, .commitPhysicalWrite ⟨⟨103⟩, 1, "gateway", ⟨10⟩⟩ [] (some "v")),
   (4, 10, .recordLogicalUsage ⟨101⟩ ⟨some "d", 3, 3, 3, ""⟩),
   (5, 10, .transitionLogicalOperation ⟨101⟩ .open .completing none),
   (6, 10, .commitLogicalPut ⟨101⟩ sampleAuthority 3)]

end S4.Managed
