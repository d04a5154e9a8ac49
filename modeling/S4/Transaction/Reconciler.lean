import S4.Transaction.Sink

/-!
# Transaction — Reconciler

`OperationReconciler`, which takes over operations whose writer has gone quiet, and the system of
writers and reconcilers: one writer for every operation, any number of reconcilers, in any
interleaving, over one journal and one provider (`transactionSystem`).
-/

namespace S4.Transaction

open Lib
open Managed (Uuid Sha256)

structure OperationReconciler where
  owner : String
  exactVersionRecovery : Bool

namespace OperationReconciler

/-- The lease of a claimed operation, in milliseconds. -/
def lease : Int := 30000

variable (pages : Nat) (operation : OperationRecord)

def abortUploads (operation : OperationRecord) :
    List DiscoveredUpload → TxMethod OperationReconciler Unit
  | [] => pure ()
  | upload :: rest => do
    backend (abortMultipart operation upload.uploadId)
    abortUploads operation rest

def abortDiscovered : TxMethod OperationReconciler Unit := do
  abortUploads operation (← discoverIncomplete pages operation)

/-- A completion that the probe has found, recorded. -/
def adoptCompletion (found : StoredObjectMeta) : TxMethod OperationReconciler Unit := do
  let stored := if (← get).exactVersionRecovery then found
    else { found with versionHistoryComplete := false }
  deleteRedundantVersions operation stored
  journal (appendEvidence operation.id stored.evidenceKind
    (stored.evidenceDetail ++ [("reconciled", "true")]))
  journal (transition operation.id .commitUnknown .committed (some stored))

/-- An exact absence, recorded once it is confirmed. -/
def adoptAbsence : TxMethod OperationReconciler Unit := do
  let observedAt ← unixTimeMs
  if ← journal (confirmExactAbsence operation.id observedAt exactAbsenceConfirmationDelay) then
    abortDiscovered pages operation
    journal (appendEvidence operation.id "completion_exactly_absent" [])
    journal (transition operation.id .commitUnknown .provenAborted none)
  else
    journal (appendEvidence operation.id "completion_exact_absence_pending"
      [("observed_at_ms", toString observedAt)])

def reconcileUnknown : TxMethod OperationReconciler Unit := do
  match ← backend (probeCompletion operation) with
  | .committed found => adoptCompletion operation found
  | .provenAbsent => journal (appendEvidence operation.id "completion_absent_inconclusive" [])
  | .provenAbsentExact => adoptAbsence pages operation
  | .inconclusive => pure ()

/-- The abort of an operation that is already `Aborting`. -/
def finishAbort (uploadId : Option String) : TxMethod OperationReconciler Unit := do
  match uploadId with
  | some uploadId => backend (abortMultipart operation uploadId)
  | none => pure ()
  abortDiscovered pages operation
  journal (transition operation.id .aborting .provenAborted none)

def reconcile : TxMethod OperationReconciler Unit := do
  journal (appendEvidence operation.id "reconcile_started"
    [("state", operation.state.asStr), ("owner", (← get).owner)])
  match operation.state with
  | .intent =>
    journal (transition operation.id .intent .aborting none)
    finishAbort pages operation none
  | .open =>
    journal (transition operation.id .open .aborting none)
    finishAbort pages operation operation.uploadId
  | .aborting => finishAbort pages operation operation.uploadId
  | .completing =>
    journal (transition operation.id .completing .commitUnknown none)
    reconcileUnknown pages operation
  | .commitUnknown => reconcileUnknown pages operation
  | .committed | .provenAborted => pure ()

def reconcileOperation (id : Uuid) (staleAfter : Nat) : TxMethod OperationReconciler Bool := do
  let now ← unixTimeMs
  match ← journal (claimReconcilableOperation id (← get).owner
      (satAddInt 64 now (-(min staleAfter (2 ^ 63 - 1)))) (satAddInt 64 now lease)) with
  | some operation =>
    reconcile pages operation
    return true
  | none => return false

end OperationReconciler

/-! ### The system -/

/-- The calls on a sink, and its creation. -/
inductive WriterOp where
  | begin (destination : ObjectDestination) (expected : ExpectedObject) (maxAttempts : Nat)
      (exactVersionRecovery : Bool)
  | write (chunk : Bytes)
  | verifyOutput (expectedSize : Nat) (expectedSha256 : String)
  | complete (pages : Nat)
  | abort (pages : Nat)
deriving DecidableEq

structure ReconcileOp where
  id : Uuid
  staleAfter : Nat
  pages : Nat
deriving DecidableEq

/-- A call on a sink returns a result; without a sink there is none. -/
abbrev SinkResult : Type := Option (Except TransactionError Unit)

abbrev WriterProg : Type := Prog Effect Answer (SinkResult × Option DirectS3Sink)

def onSink (m : TxMethod DirectS3Sink Unit) : Option DirectS3Sink → WriterProg
  | none => pure (none, none)
  | some sink => do
    let (result, sink) ← m sink
    return (some result, some sink)

/-- `DirectS3Sink::from_operation`, for an operation that is recorded by it. -/
def beginSink (id : Uuid) (destination : ObjectDestination) (expected : ExpectedObject)
    (maxAttempts : Nat) (exactVersionRecovery : Bool) : Option DirectS3Sink → WriterProg
  | some sink => pure (none, some sink)
  | none => do
    let now : Int ← Prog.perform Effect.clock
    let operation := OperationRecord.intent id now destination expected
    let inserted : Except JournalError Unit ← Prog.perform (Effect.insertIntent operation)
    match inserted with
    | .ok () => return (some (.ok ()), some (.new operation maxAttempts exactVersionRecovery))
    | .error error => return (some (.error (.journal error)), none)

section System

variable [Sha256]

def WriterOp.run (id : Uuid) : WriterOp → Option DirectS3Sink → WriterProg
  | .begin destination expected maxAttempts exactVersionRecovery =>
    beginSink id destination expected maxAttempts exactVersionRecovery
  | .write chunk => onSink (DirectS3Sink.write chunk)
  | .verifyOutput size digest => onSink (DirectS3Sink.verifyOutput size digest)
  | .complete pages => onSink do let _ ← DirectS3Sink.complete pages
  | .abort pages => onSink (DirectS3Sink.abort pages)

/-- The writers and the reconcilers. -/
def transactionSystem : AgentSystem Agent Effect Answer World where
  State
    | .writer _ => Option DirectS3Sink
    | .reconciler _ => OperationReconciler
  Op
    | .writer _ => WriterOp
    | .reconciler _ => ReconcileOp
  Result
    | .writer _ => SinkResult
    | .reconciler _ => Except TransactionError Bool
  exec
    | .writer id,    op => op.run id
    | .reconciler _, op => OperationReconciler.reconcileOperation op.pages op.id op.staleAfter
  perform := Effect.Performs
  drift := World.Drifts

end System

end S4.Transaction
