import S4.Lib.KeyMap
import S4.Lib.Word

/-!
# Staging — Types

The records of the multipart staging repository: uploads with their counters and completion lease,
parts, the attempts behind the parts, and the tickets that `begin_part` hands out.  Integers are
`Nat` (unsigned) and `Int` (the `i64` clock values).

Of the snapshot of an upload only the staging limit is kept, since the repository reads nothing
else of it, and of a completion result the opaque pipeline evidence is left out.  The cleanup audit
trail is left out too: nothing reads it back.
-/

namespace S4.Staging

open Lib

def maxActiveUploads : Nat := 16
def maxParts : Nat := 10000
/-- Twenty-four hours, in milliseconds. -/
def defaultExpiry : Int := 24 * 60 * 60 * 1000
def artifactRoot : String := "multipart/"
/-- Five minutes, in milliseconds. -/
def reconciliationGrace : Int := 5 * 60 * 1000

structure StagingQuotaLimits where
  tenantBytes : Nat
  globalBytes : Nat
deriving DecidableEq

structure PendingPart where
  uploadId : String
  partNumber : Nat
  attempt : Nat
  artifactKey : String
  reservedBytes : Nat
deriving DecidableEq

structure CleanupCandidate where
  uploadId : String
  artifactKey : String
deriving DecidableEq

structure MultipartIdentity where
  tenantId : String
  credentialPolicyId : String
  bucket : String
  key : String
  uploadId : String
deriving DecidableEq

structure MultipartSnapshot where
  maxStagedBytes : Nat
deriving DecidableEq

inductive MultipartLifecycle where
  | open
  | completing
  | completed
  | aborted
  | expired
deriving DecidableEq

structure MultipartCompletionResult where
  etag : Option String
  checksumSha256 : String
  versionId : Option String
  sourceBytes : Nat
  sizeBytes : Nat
deriving DecidableEq

structure MultipartUpload where
  identity : MultipartIdentity
  namespaceEpoch : Option Nat
  snapshot : MultipartSnapshot
  lifecycle : MultipartLifecycle
  stagedBytes : Nat
  reservedBytes : Nat
  createdAtMs : Int
  expiresAtMs : Int
  updatedAtMs : Int
  tombstoneUntilMs : Option Int
  completeRequestFingerprint : Option String
  completionLeaseOwner : Option String
  completionLeaseExpiresAtMs : Option Int
  completionFencingToken : Nat
  completionResult : Option MultipartCompletionResult
deriving DecidableEq

structure MultipartPart where
  uploadId : String
  partNumber : Nat
  attempt : Nat
  artifactKey : String
  etag : String
  checksumSha256 : String
  sizeBytes : Nat
  createdAtMs : Int
deriving DecidableEq

/-- A part that the client names in its completion request. -/
structure CompletePart where
  partNumber : Nat
  etag : String
  checksumSha256 : Option String
deriving DecidableEq

structure CompletionLease where
  fencingToken : Nat
  selectedParts : List MultipartPart
  cleanupParts : List MultipartPart
deriving DecidableEq

inductive CompletionAcquire where
  | acquired (lease : CompletionLease)
  | replayed (result : MultipartCompletionResult)
  | busy
deriving DecidableEq

structure RetiredMultipartUpload where
  uploadId : String
  tenantId : String
  namespaceEpoch : Option Nat
deriving DecidableEq

/-- The errors of the repository.  (`Unavailable` and `Crypto` come from the artifact store.) -/
inductive StagingError where
  | notFound
  | notOpen
  | quotaExceeded
  | invalidPart
  | completionConflict
  | fenced
  | persistence (message : String)
deriving DecidableEq

/-- What `abort` reports: the in-memory repository fails before it changes anything, or not at
all. -/
inductive AbortMutationError where
  | preMutation (error : StagingError)
deriving DecidableEq

/-- `"PENDING"`, `"CURRENT"` and `"RETIRED"`. -/
inductive AttemptLifecycle where
  | pending
  | current
  | retired
deriving DecidableEq

structure MemoryAttempt where
  part : MultipartPart
  reservedBytes : Nat
  lifecycle : AttemptLifecycle
deriving DecidableEq

structure MemoryState where
  uploads : KeyMap String MultipartUpload
  parts : KeyMap (String × Nat) MultipartPart
  attempts : KeyMap String MemoryAttempt
  pending : KeyMap String PendingPart

def MemoryState.new : MemoryState := ⟨∅, ∅, ∅, ∅⟩

end S4.Staging
