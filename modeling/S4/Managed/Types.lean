import S4.Lib.KeyMap
import S4.Lib.Word

/-!
# Managed — Types

The records of the managed repository: logical keys, placements, object authorities, repair
records, logical operations with their workspace usage, and the ledger of physical versions.  They
carry the fields of the source's own records.  Integers are `Nat` (unsigned) and `Int` (signed),
identifiers are `String` and `Uuid`, object metadata is the sorted list of its pairs, and the usage
payload, which is only compared, is its JSON text.

The physical key of a generation (`generationPhysicalKey`) contains a SHA-256 digest.  The digest
function is the one thing left open: `Sha256` is a class, and nothing below depends on its values.
-/

namespace S4.Managed

open Lib

/-- A UUID, as a number.  The 128 bits play no part except that they are plenty. -/
structure Uuid where
  val : Nat
deriving DecidableEq

/-- The `n` lowest hexadecimal digits of `v`, most significant first. -/
def hexDigits : Nat → Nat → List Char
  | 0,     _ => []
  | n + 1, v => hexDigits n (v / 16) ++ [Nat.digitChar (v % 16)]

/-- The hyphenated form: groups of 8, 4, 4, 4 and 12 digits. -/
def Uuid.toString (u : Uuid) : String :=
  let d := hexDigits 32 u.val
  String.ofList (d.take 8 ++ '-' :: (d.drop 8).take 4 ++ '-' :: (d.drop 12).take 4 ++
    '-' :: (d.drop 16).take 4 ++ '-' :: d.drop 20)

/-- The SHA-256 digest of a byte string. -/
class Sha256 where
  digest : List UInt8 → List UInt8

/-- `hex::encode` -/
def hexEncode (bytes : List UInt8) : String :=
  String.ofList (bytes.flatMap fun b => hexDigits 2 b.toNat)

/-- The eight big-endian bytes of a `u64`. -/
def toBeBytes (n : Nat) : List UInt8 :=
  (List.range 8).map fun i => UInt8.ofNat (n / 256 ^ (7 - i))

/-- What `hash_field` feeds the hasher: the length of the value and the value. -/
def hashField (value : List UInt8) : List UInt8 := toBeBytes value.length ++ value

structure LogicalObjectKey where
  tenantId : String
  bucket : String
  key : String
deriving DecidableEq

def utf8 (s : String) : List UInt8 := s.toUTF8.data.toList

def generationPhysicalKey [Sha256] (logical : LogicalObjectKey) (generation : Uuid) : String :=
  "__s4/generations/" ++
    hexEncode (Sha256.digest (hashField (utf8 logical.tenantId) ++
      hashField (utf8 logical.bucket) ++ hashField (utf8 logical.key))) ++
    "/" ++ generation.toString

structure Placement where
  version : Nat
  primaryBackendId : String
  replicaBackendId : Option String
deriving DecidableEq

inductive CopyStatus where
  | ready
  | repairPending
  | absent
deriving DecidableEq

structure ObjectAuthority where
  logical : LogicalObjectKey
  generation : Uuid
  digest : String
  size : Nat
  metadata : List (String × String)
  placementVersion : Nat
  primaryBackendId : String
  /-- Exact provider version selected by this authority generation. -/
  primaryVersionId : Option String
  replicaBackendId : Option String
  primaryStatus : CopyStatus
  replicaStatus : CopyStatus
  tombstone : Bool
  casVersion : Nat
  createdAtMs : Int
  updatedAtMs : Int
deriving DecidableEq

inductive RepairKind where
  | replica
  | placement
  | deleteGeneration
deriving DecidableEq

inductive RepairTargetRole where
  | primary
  | replica
  | cleanup
deriving DecidableEq

structure RepairRecord where
  /-- The claim capability while leased; otherwise equal to `repairId`. -/
  id : Uuid
  repairId : Uuid
  kind : RepairKind
  logical : LogicalObjectKey
  namespaceEpoch : Nat
  authorityCasVersion : Nat
  generation : Uuid
  digest : String
  size : Nat
  metadata : List (String × String)
  physicalKey : String
  sourceBackendId : Option String
  targetBackendId : String
  targetRole : RepairTargetRole
  placementVersion : Nat
  placementPrimaryBackendId : Option String
  placementReplicaBackendId : Option String
  attempts : Nat
  leaseOwner : Option String
  leaseToken : Option Uuid
  leaseExpiresAtMs : Option Int
  notBeforeMs : Int
  createdAtMs : Int
  updatedAtMs : Int
deriving DecidableEq

/-- The status column of a repair row. -/
inductive RepairStatus where
  | pending
  | leased
  | done
  | dead
  | waitingCutover
deriving DecidableEq

/-! ### Logical operations and workspace usage -/

inductive ManagedMutationKind where
  | put
  | delete
deriving DecidableEq

inductive ManagedLogicalOperationState where
  | intent
  | open
  | completing
  | commitUnknown
  | committed
  | provenAborted
deriving DecidableEq

def ManagedLogicalOperationState.terminal : ManagedLogicalOperationState → Bool
  | .committed => true
  | .provenAborted => true
  | _ => false

def validLogicalTransition : ManagedLogicalOperationState → ManagedLogicalOperationState → Bool
  | .open,          .completing => true
  | .open,          .commitUnknown => true
  | .completing,    .commitUnknown => true
  | .commitUnknown, .completing => true
  | _,              _ => false

inductive ManagedSettlementState where
  | pending
  | settled
  | released
deriving DecidableEq

structure ManagedRouteFence where
  namespaceEpoch : Nat
  routingEpoch : Nat
deriving DecidableEq

inductive UsageRoute where
  | putObject
  | getObject
  | headObject
  | listObjects
  | deleteObject
  | abortMultipartUpload
  | completeMultipartUpload
deriving DecidableEq

inductive RequestKind where
  | write
  | read
deriving DecidableEq

structure ManagedLogicalOperationIntent where
  operationId : Uuid
  receiptId : Uuid
  logical : LogicalObjectKey
  kind : ManagedMutationKind
  generation : Uuid
  fence : ManagedRouteFence
  expectedAuthorityCas : Option Nat
  priorLogicalSize : Nat
  primaryChildOperationId : Uuid
  backendId : String
  providerBucket : String
  physicalKey : String
  occurredAtMs : Int
  rateVersion : Int
  route : UsageRoute
  requestKind : RequestKind
  maxProcessedBytes : Nat
deriving DecidableEq

structure ManagedUsageEvidence where
  expectedOutputDigest : Option String
  expectedOutputSize : Nat
  sourceBytes : Nat
  processedBytes : Nat
  payload : String
deriving DecidableEq

structure ManagedLogicalOperation where
  intent : ManagedLogicalOperationIntent
  evidence : Option ManagedUsageEvidence
  reservedPhysicalBytes : Nat
  committedPhysicalBytes : Nat
  releasedPhysicalBytes : Nat
  state : ManagedLogicalOperationState
  committedAuthorityVersion : Option Nat
  settlementState : ManagedSettlementState
  lastErrorClass : Option String
  createdAtMs : Int
  updatedAtMs : Int
  committedAtMs : Option Int
  abortedAtMs : Option Int
deriving DecidableEq

structure ManagedWorkspaceUsage where
  tenantId : String
  visibleLogicalBytes : Nat
  physicalAllocatedBytes : Nat
  reservedBytes : Nat
  visibleLimitBytes : Nat
  replacementHeadroomBytes : Nat
  activeOperationId : Option Uuid
  version : Nat
  createdAtMs : Int
  updatedAtMs : Int
deriving DecidableEq

structure ManagedOperationCommit where
  operation : ManagedLogicalOperation
  authority : ObjectAuthority
  usage : ManagedWorkspaceUsage
deriving DecidableEq

structure ManagedProvenPhysicalAllocation where
  authority : ObjectAuthority
  allocatedBytes : Nat
deriving DecidableEq

/-- The errors of the repository calls modelled here, with their payloads. -/
inductive ManagedError where
  | conflict
  | corrupt (reason : String)
  | persistence (reason : String)
  | namespaceFenced
  | invalidTransition (source target : ManagedLogicalOperationState)
  | mutationInProgress
  | quotaExceeded
  | cursorExpired
  | cursorQueryMismatch
  | cursorLimitExceeded
deriving DecidableEq

def ManagedLogicalOperationState.debug : ManagedLogicalOperationState → String
  | .intent => "Intent"
  | .open => "Open"
  | .completing => "Completing"
  | .commitUnknown => "CommitUnknown"
  | .committed => "Committed"
  | .provenAborted => "ProvenAborted"

/-- The text of an error. -/
def ManagedError.display : ManagedError → String
  | .conflict           => "managed authority compare-and-swap conflict"
  | .corrupt reason     => "managed authority data is corrupt: " ++ reason
  | .persistence reason => "managed authority persistence failed: " ++ reason
  | .namespaceFenced    => "managed namespace is fenced for purge"
  | .invalidTransition source target =>
    "managed operation transition from " ++ source.debug ++ " to " ++ target.debug ++ " is invalid"
  | .mutationInProgress => "managed workspace already has an active mutation"
  | .quotaExceeded      => "managed workspace capacity is exhausted"
  | .cursorExpired       => "managed list cursor is expired"
  | .cursorQueryMismatch => "managed list cursor does not match this query"
  | .cursorLimitExceeded => "managed list cursor capacity is exhausted"

/-! ### Physical writes and purges -/

structure ProviderStorageIdentity where
  providerKind : String
  providerInstanceId : String
  providerAccountId : String
  canonicalEndpoint : String
  region : String
deriving DecidableEq

inductive BackendVersioningMode where
  | unversioned
  | enabled
  | suspended
  | unknown
deriving DecidableEq

inductive BackendVersioningCapability where
  | unsupported
  | optional
  | required
deriving DecidableEq

structure PhysicalWriteIntent where
  intentId : Uuid
  tenantId : String
  backendId : String
  storageIdentity : ProviderStorageIdentity
  credentialEpoch : Nat
  providerBucket : String
  physicalKey : String
  versioningMode : BackendVersioningMode
  versioningCapability : BackendVersioningCapability
  leaseOwner : String
deriving DecidableEq

structure PhysicalWriteLease where
  intentId : Uuid
  namespaceEpoch : Nat
  owner : String
  token : Uuid
deriving DecidableEq

structure PhysicalVersionTarget where
  tenantId : String
  namespaceEpoch : Nat
  backendId : String
  storageIdentity : ProviderStorageIdentity
  credentialEpoch : Nat
  providerBucket : String
  physicalKey : String
  versionId : Option String
  versioningMode : BackendVersioningMode
  versioningCapability : BackendVersioningCapability
  writeOperationId : Uuid
deriving DecidableEq

structure NamespacePurgeRequest where
  tenantId : String
  operationId : Uuid
deriving DecidableEq

inductive NamespacePurgeStatus where
  | pending
  | running
  | complete (deletedVersions : Nat)
  | blocked (reason : String)
  | unsupported (reason : String)
deriving DecidableEq

structure MemoryPurge where
  tenantId : String
  status : NamespacePurgeStatus
  deletedVersions : Nat
deriving DecidableEq

/-! ### List cursors -/

inductive ManagedListVersion where
  | v1
  | v2
deriving DecidableEq

structure ManagedListCursorBinding where
  tenantId : String
  bucket : String
  keyPrefix : String
  delimiter : Option String
  version : ManagedListVersion
deriving DecidableEq

structure ManagedListCursorPosition where
  lastKey : Option String
  lastCommonPrefix : Option String
deriving DecidableEq

inductive ManagedListCursorState where
  | active
  | used
deriving DecidableEq

/-- The response state is its serialized text. -/
structure ManagedListCursor where
  id : Uuid
  binding : ManagedListCursorBinding
  fence : ManagedRouteFence
  position : ManagedListCursorPosition
  responseState : String
  responseStateBytes : Nat
  finalPage : Bool
  state : ManagedListCursorState
  createdAtMs : Int
  expiresAtMs : Int
  firstUsedAtMs : Option Int
deriving DecidableEq

structure ManagedListCursorRequest where
  binding : ManagedListCursorBinding
  position : ManagedListCursorPosition
  responseState : String
  finalPage : Bool
deriving DecidableEq

end S4.Managed
