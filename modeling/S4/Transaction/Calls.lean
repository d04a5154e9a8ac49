import S4.Transaction.World

/-!
# Transaction — Calls

The effects of `World` as calls that a sink or a reconciler makes, and what the two share: the
listing of incomplete uploads, and the deletion of redundant versions.

The listing has no bound of its own: a provider may truncate every page.  It is followed for a given
number of pages, and past them nothing more happens (`hang`), so that what holds for every number
of pages holds for the loop.
-/

namespace S4.Transaction

open Lib Method
open Managed (Uuid Sha256 hexEncode)

/-! ### Calls -/

/-- A call on an object with state `σ`. -/
abbrev TxMethod (σ α : Type) : Type := Method Effect Answer σ TransactionError α

section Calls

variable {σ α : Type}

/-- The answer of a journal call, or its error. -/
def journal (m : TxMethod σ (Except JournalError α)) : TxMethod σ α := do
  Method.ofExcept ((← m).mapError .journal)

/-- The answer of a provider call, or its error. -/
def backend (m : TxMethod σ (Except BackendError α)) : TxMethod σ α := do
  Method.ofExcept ((← m).mapError .backend)

def getOperation (id : Uuid) : TxMethod σ (Except JournalError (Option OperationRecord)) :=
  perform (Effect.get id)

def setOpen (id : Uuid) (uploadId : Option String) : TxMethod σ (Except JournalError Unit) :=
  perform (Effect.setOpen id uploadId)

def setExpected (id : Uuid) (expected : ExpectedObject) : TxMethod σ (Except JournalError Unit) :=
  perform (Effect.setExpected id expected)

def transition (id : Uuid) (expected next : OperationState) (committed : Option StoredObjectMeta) :
    TxMethod σ (Except JournalError Unit) :=
  perform (Effect.transition id expected next committed)

def recordPart (part : PartRecord) : TxMethod σ (Except JournalError Unit) :=
  perform (Effect.recordPart part)

def appendEvidence (id : Uuid) (kind : String) (detail : List (String × String)) :
    TxMethod σ (Except JournalError Unit) :=
  perform (Effect.appendEvidence id kind detail)

def recordMutationLaunch (id : Uuid) (notBefore : Int) : TxMethod σ (Except JournalError Unit) :=
  perform (Effect.recordMutationLaunch id notBefore)

def confirmExactAbsence (id : Uuid) (observedAt minimumSeparation : Int) :
    TxMethod σ (Except JournalError Bool) :=
  perform (Effect.confirmExactAbsence id observedAt minimumSeparation)

def claimReconcilableOperation (id : Uuid) (owner : String) (staleBefore leaseUntil : Int) :
    TxMethod σ (Except JournalError (Option OperationRecord)) :=
  perform (Effect.claimReconcilableOperation id owner staleBefore leaseUntil)

def unixTimeMs : TxMethod σ Int := perform Effect.clock

variable (operation : OperationRecord)

def createMultipart : TxMethod σ (Except BackendError String) :=
  perform (Effect.createMultipart operation)

def uploadPart (uploadId : String) (partNumber : Nat) (body : Bytes) :
    TxMethod σ (Except BackendError String) :=
  perform (Effect.uploadPart operation uploadId partNumber body)

def launchPut (body : Bytes) (notBefore : Int) : TxMethod σ Nat :=
  perform (Effect.launchPut operation body notBefore)

def launchComplete (uploadId : String) (parts : List UploadedPart)
    (notBefore : Int) : TxMethod σ Nat :=
  perform (Effect.launchComplete operation uploadId parts notBefore)

def awaitMutation (handle : Nat) : TxMethod σ (Except BackendError StoredObjectMeta) :=
  perform (Effect.awaitMutation handle)

def abortMultipart (uploadId : String) : TxMethod σ (Except BackendError Unit) :=
  perform (Effect.abortMultipart operation uploadId)

def listMultipartUploads (bucket keyPrefix : String) (keyMarker uploadIdMarker : Option String) :
    TxMethod σ (Except BackendError UploadPage) :=
  perform (Effect.listMultipartUploads bucket keyPrefix keyMarker uploadIdMarker)

def probeCompletion : TxMethod σ (Except BackendError CompletionProbe) :=
  perform (Effect.probeCompletion operation)

def deleteObjectVersion (versionId : String) : TxMethod σ (Except BackendError Unit) :=
  perform (Effect.deleteObjectVersion operation versionId)

/-- Nothing more happens. -/
def hang : TxMethod σ α := do
  let never ← perform Effect.hang
  never.elim

/-! ### What sinks and reconcilers share -/

def BackendErrorKind.debug : BackendErrorKind → String
  | .definitive => "Definitive"
  | .ambiguous => "Ambiguous"

def BackendError.definitive (message : String) : BackendError := ⟨.definitive, message⟩
def BackendError.ambiguous (message : String) : BackendError := ⟨.ambiguous, message⟩

/-- What the listing shows of the operation: its key, and a start that is not before its own by more
than a second. -/
def discovered (l : ListedUpload) : Option DiscoveredUpload :=
  match l.key, l.uploadId with
  | some key, some uploadId =>
    if key ≠ operation.destination.physicalKey then none
    else if l.initiatedAtMs.all (satAddInt 64 operation.createdAtMs (-1000) ≤ ·) then
      some ⟨uploadId, key, l.initiatedAtMs⟩
    else none
  | _, _ => none

def discoverPages (operation : OperationRecord) : (pages : Nat) →
    (keyMarker uploadIdMarker : Option String) → List DiscoveredUpload →
    TxMethod σ (List DiscoveredUpload)
  | 0, _, _, _ => hang
  | pages + 1, keyMarker, uploadIdMarker, found => do
    let page ← backend (listMultipartUploads operation.destination.bucket
      operation.destination.physicalKey keyMarker uploadIdMarker)
    let found := found ++ page.uploads.filterMap (discovered operation)
    if !page.isTruncated then return found
    else if page.nextKeyMarker.isNone ∨
        (page.nextKeyMarker = keyMarker ∧ page.nextUploadIdMarker = uploadIdMarker) then
      throw (.backend
        (.ambiguous "multipart discovery was truncated without advancing its markers"))
    else discoverPages operation pages page.nextKeyMarker page.nextUploadIdMarker found

def discoverIncomplete (pages : Nat) (operation : OperationRecord) :
    TxMethod σ (List DiscoveredUpload) :=
  discoverPages operation pages none none []

/-- The versions that a commit has made redundant. -/
def deleteVersions (operation : OperationRecord) (versionId : Option String) :
    List String → TxMethod σ Unit
  | [] => pure ()
  | superseded :: rest =>
    if versionId = some superseded then
      throw (.journal (.corrupt "authoritative provider version was listed as redundant"))
    else do
      backend (deleteObjectVersion operation superseded)
      deleteVersions operation versionId rest

def deleteRedundantVersions (stored : StoredObjectMeta) : TxMethod σ Unit :=
  deleteVersions operation stored.versionId stored.supersededVersionIds

def StoredObjectMeta.evidenceKind (stored : StoredObjectMeta) : String :=
  if stored.versionHistoryComplete then "provider_version_history_complete"
  else "provider_version_history_ambiguous"

def StoredObjectMeta.evidenceDetail (stored : StoredObjectMeta) : List (String × String) :=
  [("version_id", stored.versionId.getD "null"),
   ("superseded_version_ids", String.intercalate "," stored.supersededVersionIds)]

end Calls

end S4.Transaction
