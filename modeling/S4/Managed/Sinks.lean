import S4.Managed.Calls
import S4.Lib.Agents
import S4.Transaction.Types

/-!
# Managed — Sinks

The two sinks of a managed put, as programs.  `ManagedReplicatedSink` writes to a primary and
perhaps a replica destination and publishes the authority; `ManagedLogicalSink` wraps it, records
the usage evidence before the commit and proves the logical abort of a put that fails before.

Their effects are calls of the repository and of the two destinations, the clock and new
identifiers (`SinkEffect`).  What a destination does is left open: any call on it may succeed or
fail, and a call that runs into its timeout has failed.
-/

namespace S4.Managed

open Lib Method
open Transaction (Bytes SinkCommitState StoredObjectMeta TransactionError)

/-! ### The publication of an authority -/

/-- `ManagedReplicatedSink`, without its destinations: only whether the replica is still there. -/
structure ManagedReplicatedSink where
  logical : LogicalObjectKey
  generation : Uuid
  placement : Placement
  logicalOperationId : Option Uuid
  expectedCas : Option Nat
  metadata : List (String × String)
  hasReplica : Bool
  output : Option (Nat × String)
  finished : Bool
deriving DecidableEq

namespace ManagedReplicatedSink

/-- The status of the replica, once it has or has not completed in time. -/
def replicaStatus (sink : ManagedReplicatedSink) (completed : Bool) : CopyStatus :=
  if sink.hasReplica then if completed then .ready else .repairPending
  else if sink.placement.replicaBackendId.isSome then .repairPending
  else .absent

/-- The authority of the generation, from what the primary destination has stored. -/
def authority (sink : ManagedReplicatedSink) (size : Nat) (digest : String)
    (primary : StoredObjectMeta) (replicaCompleted : Bool) (now : Int) : ObjectAuthority where
  logical := sink.logical
  generation := sink.generation
  digest := digest
  size := size
  metadata := sink.metadata
  placementVersion := sink.placement.version
  primaryBackendId := sink.placement.primaryBackendId
  primaryVersionId := primary.versionId
  replicaBackendId := sink.placement.replicaBackendId
  primaryStatus := .ready
  replicaStatus := sink.replicaStatus replicaCompleted
  tombstone := false
  casVersion := 0
  createdAtMs := now
  updatedAtMs := now

/-- The call with which `complete` publishes, if it gets that far. -/
def publication (sink : ManagedReplicatedSink) (primary : StoredObjectMeta)
    (replicaCompleted : Bool) (now : Int) : Option Call :=
  if sink.finished then none
  else match sink.output with
    | none => none
    | some (size, digest) =>
      let authority := sink.authority size digest primary replicaCompleted now
      match sink.logicalOperationId with
      | none => some (.publish authority sink.expectedCas)
      | some id =>
        ((checkedAdd 64 primary.supersededVersionIds.length 1).bind (checkedMul 64 size)).map
          fun allocated => .commitLogicalPut id authority allocated

end ManagedReplicatedSink

/-! ### Effects -/

inductive Destination where
  | primary
  | replica
deriving DecidableEq

inductive SinkEffect where
  | call (c : Call)
  | logicalOperation (id : Uuid)
  | write (destination : Destination) (chunk : Bytes)
  | verifyOutput (destination : Destination) (size : Nat) (digest : String)
  | complete (destination : Destination)
  | abort (destination : Destination)
  | clock
  | uuid

@[reducible] def SinkAnswer : SinkEffect → Type
  | .call _             => Except ManagedError Unit
  | .logicalOperation _ => Except ManagedError (Option ManagedLogicalOperation)
  | .write _ _          => Except TransactionError Unit
  | .verifyOutput _ _ _ => Except TransactionError Unit
  | .complete _         => Except TransactionError StoredObjectMeta
  | .abort _            => Except TransactionError Unit
  | .clock              => Int
  | .uuid               => Uuid

/-- A call on a sink with state `σ`. -/
abbrev SinkMethod (σ α : Type) : Type := Method SinkEffect SinkAnswer σ TransactionError α

section Calls

variable {σ : Type}

def repositoryCall (c : Call) : SinkMethod σ (Except ManagedError Unit) :=
  perform (SinkEffect.call c)

def logicalOperation (id : Uuid) :
    SinkMethod σ (Except ManagedError (Option ManagedLogicalOperation)) :=
  perform (SinkEffect.logicalOperation id)

def unixTimeMs : SinkMethod σ Int := perform SinkEffect.clock

def nowV7 : SinkMethod σ Uuid := perform SinkEffect.uuid

namespace Destination

def write (d : Destination) (chunk : Bytes) : SinkMethod σ (Except TransactionError Unit) :=
  perform (SinkEffect.write d chunk)

def verifyOutput (d : Destination) (size : Nat) (digest : String) :
    SinkMethod σ (Except TransactionError Unit) :=
  perform (SinkEffect.verifyOutput d size digest)

def complete (d : Destination) : SinkMethod σ (Except TransactionError StoredObjectMeta) :=
  perform (SinkEffect.complete d)

def abort (d : Destination) : SinkMethod σ (Except TransactionError Unit) :=
  perform (SinkEffect.abort d)

end Destination

end Calls

/-- An error of the repository, as the sinks report it. -/
def publicationError {α : Type} : Except ManagedError α → Except TransactionError α :=
  Except.mapError fun error => .publication error.display

/-! ### The replicated sink -/

namespace ManagedReplicatedSink

def commitState (sink : ManagedReplicatedSink) : SinkCommitState :=
  if sink.finished then .committed
  else if sink.output.isSome then .commitUnknown
  else .preCommit

def abandonReplica : SinkMethod ManagedReplicatedSink Unit := do
  if (← get).hasReplica then
    modify ({ · with hasReplica := false })
    let _ ← Destination.replica.abort

/-- The primary must take the chunk; a replica that does not is given up. -/
def write (chunk : Bytes) : SinkMethod ManagedReplicatedSink Unit := do
  let sink ← get
  if sink.finished then throw .finished
  else
    Method.ofExcept (← Destination.primary.write chunk)
    if sink.hasReplica then
      match ← Destination.replica.write chunk with
      | .ok () => pure ()
      | .error _ => abandonReplica

def verifyOutput (expectedSize : Nat) (expectedSha256 : String) :
    SinkMethod ManagedReplicatedSink Unit := do
  Method.ofExcept (← Destination.primary.verifyOutput expectedSize expectedSha256)
  if (← get).hasReplica then
    match ← Destination.replica.verifyOutput expectedSize expectedSha256 with
    | .ok () => pure ()
    | .error _ => abandonReplica
  modify ({ · with output := some (expectedSize, expectedSha256) })

/-- Whether the replica, if there is one, completes in time. -/
def completeReplica : SinkMethod ManagedReplicatedSink Bool := do
  if (← get).hasReplica then return (← Destination.replica.complete).toBool
  else return false

variable [Sha256]

/-- The cleanup of what a publication that failed has written to one backend. -/
def enqueueCleanup (authority : ObjectAuthority) (backend : String) :
    SinkMethod ManagedReplicatedSink Unit := do
  let now ← unixTimeMs
  let repairId ← nowV7
  let _ ← repositoryCall (.enqueue (cleanupRepair now repairId authority backend))

/-- The end of `complete`: the authority is published, by itself or with its logical operation. -/
def publish (c : Call) : SinkMethod ManagedReplicatedSink Unit := do
  match c, ← repositoryCall c with
  | _, .ok () => pure ()
  | .publish authority _, .error error =>
    enqueueCleanup authority authority.primaryBackendId
    match authority.replicaBackendId with
    | some replica => enqueueCleanup authority replica
    | none => pure ()
    throw (.publication error.display)
  | _, .error error => throw (.publication error.display)

/-- The primary is completed, and what was written is published. -/
def complete : SinkMethod ManagedReplicatedSink StoredObjectMeta := do
  let sink ← get
  if sink.finished then throw .finished
  else if sink.output.isNone then throw .outputMismatch
  else
    let primary ← Method.ofExcept (← Destination.primary.complete)
    let replicaCompleted ← completeReplica
    let now ← unixTimeMs
    match sink.publication primary replicaCompleted now with
    | none => throw .capacityExceeded
    | some c =>
      publish c
      modify ({ · with finished := true })
      return primary

def abort : SinkMethod ManagedReplicatedSink Unit := do
  if (← get).finished then pure ()
  else
    let primary ← Destination.primary.abort
    abandonReplica
    modify ({ · with finished := primary.toBool })
    Method.ofExcept primary

end ManagedReplicatedSink

/-! ### The logical sink -/

/-- A usage event, with the rendering of its route, kind, bucket and pipeline evidence as payload.
-/
structure UsageEvent where
  sourceBytes : Nat
  processedBytes : Nat
  payload : String
deriving DecidableEq

/-- The sink of a logical operation, over that of its generation. -/
structure ManagedLogicalSink where
  inner : ManagedReplicatedSink
  operationId : Uuid
  expectedOutputSize : Option Nat
  expectedOutputDigest : Option String
  usageRecorded : Bool
  committed : Bool
deriving DecidableEq

namespace ManagedLogicalSink

/-- The sink of `begin_managed_put_sink`, over the sink of its generation. -/
def new (inner : ManagedReplicatedSink) (operationId : Uuid) : ManagedLogicalSink :=
  ⟨inner, operationId, none, none, false, false⟩

def commitState (sink : ManagedLogicalSink) : SinkCommitState :=
  if sink.committed then .committed
  else if sink.usageRecorded then .commitUnknown
  else .preCommit

/-- A call on the inner sink. -/
def onInner {α : Type} (m : SinkMethod ManagedReplicatedSink α) : SinkMethod ManagedLogicalSink α :=
  zoom ManagedLogicalSink.inner (fun inner sink => { sink with inner := inner }) m

def write (chunk : Bytes) : SinkMethod ManagedLogicalSink Unit := do
  if (← get).committed then throw .finished
  else onInner (ManagedReplicatedSink.write chunk)

def verifyOutput (expectedSize : Nat) (expectedSha256 : String) :
    SinkMethod ManagedLogicalSink Unit := do
  if (← get).committed then throw .finished
  else
    onInner (ManagedReplicatedSink.verifyOutput expectedSize expectedSha256)
    modify ({ · with
      expectedOutputSize := some expectedSize
      expectedOutputDigest := some expectedSha256 })

/-- The evidence that the event gives of the put, if it is consistent with the output. -/
def usageEvidence (logical : Option ManagedLogicalOperation)
    (size : Nat) (digest : String) (event : UsageEvent) :
    Except TransactionError ManagedUsageEvidence :=
  match logical with
  | none => .error (.publication "managed logical operation disappeared")
  | some operation =>
    if operation.intent.kind ≠ .put then
      .error (.publication "managed logical operation is not a put")
    else if event.processedBytes ≠ max event.sourceBytes size then
      .error (.publication "managed usage evidence is inconsistent with the request")
    else .ok ⟨some digest, size, event.sourceBytes, event.processedBytes, event.payload⟩

def recordUsageEvidence (event : UsageEvent) : SinkMethod ManagedLogicalSink Unit := do
  let sink ← get
  if sink.usageRecorded then pure ()
  else match sink.expectedOutputSize, sink.expectedOutputDigest with
    | none, _ =>
      throw (.publication "managed logical usage evidence requires a verified output size")
    | some _, none =>
      throw (.publication "managed logical usage evidence requires a verified output digest")
    | some size, some digest =>
      let logical ← Method.ofExcept
        (publicationError (← Managed.logicalOperation sink.operationId))
      let evidence ← Method.ofExcept (usageEvidence logical size digest event)
      Method.ofExcept (publicationError
        (← repositoryCall (.recordLogicalUsage sink.operationId evidence)))
      Method.ofExcept (publicationError (← repositoryCall
        (.transitionLogicalOperation sink.operationId .open .completing none)))
      modify ({ · with usageRecorded := true })

variable [Sha256]

def complete : SinkMethod ManagedLogicalSink StoredObjectMeta := do
  let sink ← get
  if sink.committed then throw .finished
  else if !sink.usageRecorded then
    throw (.publication "managed logical usage evidence was not recorded before commit")
  else
    let stored ← onInner ManagedReplicatedSink.complete
    modify ({ · with committed := true })
    return stored

/-- The inner sink is aborted, and the operation too if its usage is not recorded. -/
def abort : SinkMethod ManagedLogicalSink Unit := do
  let sink ← get
  if sink.committed then pure ()
  else
    onInner ManagedReplicatedSink.abort
    if sink.usageRecorded then pure ()
    else Method.ofExcept (publicationError
      (← repositoryCall (.proveLogicalAbort sink.operationId "client_abort" none)))

end ManagedLogicalSink

/-! ### A concrete sink -/

/-- The sink of the put of `sampleIntent`, when its output is known. -/
def sampleSink : ManagedReplicatedSink where
  logical := sampleKey
  generation := ⟨1⟩
  placement := ⟨1, "a", some "b"⟩
  logicalOperationId := some ⟨101⟩
  expectedCas := none
  metadata := []
  hasReplica := true
  output := some (3, "d")
  finished := false

end S4.Managed
