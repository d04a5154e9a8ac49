import S4.Managed.Types

/-!
# Transaction — Types

The records of a destination transaction: the operation and its state machine, the parts and the
evidence that its journal keeps, what a provider tells about uploads and completions, and the errors
of the layer.  Fields that nothing here reads are left out: the workspace binding of a destination,
and the capabilities of a backend other than its exact version recovery.
-/

namespace S4.Transaction

open Managed (Uuid)

abbrev Bytes : Type := List UInt8

/-- Bytes of one uploaded part: 16 MiB. -/
def directPartBytes : Nat := 16 * 1024 * 1024

/-- `PROVIDER_MUTATION_AMBIGUITY_WINDOW` and `EXACT_ABSENCE_CONFIRMATION_DELAY`, in milliseconds. -/
def providerMutationAmbiguityWindow : Int := 75000
def exactAbsenceConfirmationDelay : Int := 5000

/-! ### Operations -/

inductive OperationState where
  | intent
  | open
  | completing
  | commitUnknown
  | committed
  | aborting
  | provenAborted
deriving DecidableEq

namespace OperationState

def asStr : OperationState → String
  | .intent        => "INTENT"
  | .open          => "OPEN"
  | .completing    => "COMPLETING"
  | .commitUnknown => "COMMIT_UNKNOWN"
  | .committed     => "COMMITTED"
  | .aborting      => "ABORTING"
  | .provenAborted => "PROVEN_ABORTED"

def canTransitionTo : OperationState → OperationState → Bool
  | .intent,        .open          => true
  | .intent,        .aborting      => true
  | .open,          .completing    => true
  | .open,          .aborting      => true
  | .completing,    .committed     => true
  | .completing,    .commitUnknown => true
  | .completing,    .provenAborted => true
  | .commitUnknown, .committed     => true
  | .commitUnknown, .provenAborted => true
  | .aborting,      .provenAborted => true
  | _,              _              => false

def isTerminal : OperationState → Bool
  | .committed => true
  | .provenAborted => true
  | _ => false

end OperationState

structure ObjectDestination where
  backendId : String
  bucket : String
  logicalKey : String
  physicalKey : String
deriving DecidableEq

structure ExpectedObject where
  digest : Option String
  size : Option Nat
  metadata : List (String × String)
deriving DecidableEq

/-- What a destination knows about the object it has stored. -/
structure StoredObjectMeta where
  etag : Option String
  versionId : Option String
  supersededVersionIds : List String
  versionHistoryComplete : Bool
deriving DecidableEq

structure OperationRecord where
  id : Uuid
  state : OperationState
  destination : ObjectDestination
  expected : ExpectedObject
  uploadId : Option String
  committed : Option StoredObjectMeta
  leaseOwner : Option String
  leaseExpiresAtMs : Option Int
  mutationNotBeforeMs : Option Int
  exactAbsenceObservedAtMs : Option Int
  createdAtMs : Int
  updatedAtMs : Int
deriving DecidableEq

/-- `OperationRecord::intent`, under a given identifier. -/
def OperationRecord.intent (id : Uuid) (now : Int) (destination : ObjectDestination)
    (expected : ExpectedObject) : OperationRecord where
  id := id
  state := .intent
  destination := destination
  expected := expected
  uploadId := none
  committed := none
  leaseOwner := none
  leaseExpiresAtMs := none
  mutationNotBeforeMs := none
  exactAbsenceObservedAtMs := none
  createdAtMs := now
  updatedAtMs := now

structure PartRecord where
  operationId : Uuid
  partNumber : Nat
  etag : String
  sizeBytes : Nat
  digest : String
  createdAtMs : Int
deriving DecidableEq

/-- The detail of an evidence record is its JSON object, with the values in text. -/
structure EvidenceRecord where
  id : Uuid
  operationId : Uuid
  kind : String
  detail : List (String × String)
  createdAtMs : Int
deriving DecidableEq

/-! ### Provider -/

structure UploadedPart where
  partNumber : Nat
  etag : String
deriving DecidableEq

structure DiscoveredUpload where
  uploadId : String
  key : String
  initiatedAtMs : Option Int
deriving DecidableEq

inductive CompletionProbe where
  | committed (stored : StoredObjectMeta)
  | provenAbsent
  | provenAbsentExact
  | inconclusive
deriving DecidableEq

/-! ### Errors -/

inductive JournalError where
  | notFound (id : Uuid)
  | conflict (reason : String)
  | corrupt (reason : String)
  | persistence (reason : String)
deriving DecidableEq

inductive BackendErrorKind where
  | definitive
  | ambiguous
deriving DecidableEq

structure BackendError where
  kind : BackendErrorKind
  message : String
deriving DecidableEq

inductive TransactionError where
  | journal (error : JournalError)
  | backend (error : BackendError)
  | finished
  | completionAmbiguous
  | tooManyParts
  | spool (reason : String)
  | outputMismatch
  | capacityExceeded
  | publication (reason : String)
deriving DecidableEq

/-! ### Sinks -/

/-- What a sink tells about its commit. -/
inductive SinkCommitState where
  | preCommit
  | commitUnknown
  | committed
deriving DecidableEq

end S4.Transaction
