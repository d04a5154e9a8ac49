import S4.Transaction.Calls

/-!
# Transaction — Sink

`DirectS3Sink`, the writer of one destination object, as programs over the effects of `World`.
Chunks are buffered up to one part; the object is put in one request, or in parts once it outgrows
the buffer; the commit is retried while its outcome is ambiguous, and what stays unknown is probed.

`for attempt in 1..=max_attempts` is recursion on the attempts that remain.  The two commits,
`completeSinglePut` and `completeMultipart`, are the same loop around different calls
(`commitAttempts`).  The running hash is the bytes it has been fed.
-/

namespace S4.Transaction

open Lib
open Managed (Uuid Sha256 hexEncode)

/-- At most one part of bytes. -/
structure PartBuffer where
  bytes : Bytes
  fits : bytes.length ≤ directPartBytes

def PartBuffer.empty : PartBuffer := ⟨[], Nat.zero_le _⟩

/-- As much of the chunk as fits. -/
def PartBuffer.extend (buffer : PartBuffer) (chunk : Bytes) : PartBuffer :=
  ⟨buffer.bytes ++ chunk.take (directPartBytes - buffer.bytes.length), by
    have := buffer.fits
    simp only [List.length_append, List.length_take]
    omega⟩

/-- What does not fit. -/
def PartBuffer.rest (buffer : PartBuffer) (chunk : Bytes) : Bytes :=
  chunk.drop (directPartBytes - buffer.bytes.length)

structure DirectS3Sink where
  operation : OperationRecord
  buffer : PartBuffer
  uploadId : Option String
  parts : List UploadedPart
  maxAttempts : Nat
  outputHasher : Bytes
  outputBytes : Nat
  outputVerified : Bool
  finished : Bool
  exactVersionRecovery : Bool

def sha256Hex [Sha256] (bytes : Bytes) : String := hexEncode (Sha256.digest bytes)

namespace DirectS3Sink

/-- The sink of an operation that has been recorded. -/
def new (operation : OperationRecord) (maxAttempts : Nat) (exactVersionRecovery : Bool) :
    DirectS3Sink where
  operation := operation
  buffer := .empty
  uploadId := none
  parts := []
  maxAttempts := max maxAttempts 1
  outputHasher := []
  outputBytes := 0
  outputVerified := false
  finished := false
  exactVersionRecovery := exactVersionRecovery

def setState (state : OperationState) (sink : DirectS3Sink) : DirectS3Sink :=
  { sink with operation := { sink.operation with state := state } }

def commitState (sink : DirectS3Sink) : SinkCommitState :=
  match sink.operation.state with
  | .completing | .commitUnknown => .commitUnknown
  | .committed => .committed
  | .intent | .open | .aborting | .provenAborted => .preCommit

def evidence (kind : String) (detail : List (String × String)) : TxMethod DirectS3Sink Unit := do
  journal (appendEvidence (← get).operation.id kind detail)

/-- Record that a mutation is about to be launched, and until when it may take effect. -/
def recordLaunch : TxMethod DirectS3Sink Int := do
  let notBefore := satAddInt 64 (← unixTimeMs) providerMutationAmbiguityWindow
  journal (recordMutationLaunch (← get).operation.id notBefore)
  return notBefore

/-! ### Parts -/

def ensureMultipart : TxMethod DirectS3Sink Unit := do
  let sink ← get
  if sink.uploadId.isSome then pure ()
  else
    evidence "create_multipart_before" []
    let _ ← recordLaunch
    match ← createMultipart sink.operation with
    | .error error =>
      evidence "create_multipart_unknown" [("kind", error.kind.debug)]
      throw (.backend error)
    | .ok uploadId =>
      journal (setOpen sink.operation.id (some uploadId))
      modify fun sink => { sink with
        operation := { sink.operation with state := .open, uploadId := some uploadId }
        uploadId := some uploadId }
      evidence "create_multipart_after" [("upload_id_recorded", "true")]

section Digests

variable [Sha256]

/-- The attempts to upload one part; `priorAmbiguous` once one of them may have gone through. -/
def uploadAttempts (uploadId : String) (partNumber : Nat) (body : Bytes) : (remaining : Nat) →
    (attempt : Nat) → (priorAmbiguous : Bool) → (lastError : Option BackendError) →
    TxMethod DirectS3Sink Unit
  | 0, _, _, lastError =>
    throw (.backend (lastError.getD (.ambiguous "upload part retry budget exhausted")))
  | remaining + 1, attempt, priorAmbiguous, _ => do
    evidence "upload_part_before" [("part_number", toString partNumber),
      ("attempt", toString attempt), ("digest", sha256Hex body)]
    let _ ← recordLaunch
    let operation := (← get).operation
    match ← uploadPart operation uploadId partNumber body with
    | .ok etag =>
      let now ← unixTimeMs
      journal (recordPart ⟨operation.id, partNumber, etag, body.length, sha256Hex body, now⟩)
      evidence "upload_part_after" [("part_number", toString partNumber),
        ("attempt", toString attempt)]
      modify fun sink => { sink with parts := sink.parts ++ [⟨partNumber, etag⟩] }
    | .error error =>
      if error.kind = .definitive ∧ priorAmbiguous = false then throw (.backend error)
      else uploadAttempts uploadId partNumber body remaining (attempt + 1) true (some error)

def uploadBufferedPart (body : Bytes) : TxMethod DirectS3Sink Unit := do
  let sink ← get
  match sink.uploadId with
  | none => throw (.backend (.definitive "multipart upload is not open"))
  | some uploadId =>
    let partNumber := sink.parts.length + 1
    if 10000 < partNumber then throw .tooManyParts
    else uploadAttempts uploadId partNumber body sink.maxAttempts 1 false none

/-- The buffer is split off and uploaded as the next part. -/
def uploadBuffer (buffer : PartBuffer) : TxMethod DirectS3Sink Unit := do
  modify ({ · with buffer := .empty })
  uploadBufferedPart buffer.bytes

/-- The loop of `write`, with the buffer that it has filled so far. -/
def writeLoop (buffer : PartBuffer) (chunk : Bytes) : TxMethod DirectS3Sink Unit :=
  if _hchunk : chunk = [] then pure ()
  else do
    modify ({ · with buffer := buffer.extend chunk })
    if _hrest : (buffer.extend chunk).bytes.length = directPartBytes ∧ buffer.rest chunk ≠ [] then
      ensureMultipart
      uploadBuffer (buffer.extend chunk)
      writeLoop .empty (buffer.rest chunk)
    else if (buffer.extend chunk).bytes.length = directPartBytes ∧ (← get).uploadId.isSome then
      uploadBuffer (buffer.extend chunk)
      writeLoop .empty (buffer.rest chunk)
    else writeLoop (buffer.extend chunk) (buffer.rest chunk)
-- a full buffer takes no byte of the chunk, but is empty in the next round
termination_by 2 * chunk.length + buffer.bytes.length / directPartBytes
decreasing_by
  all_goals
    have hpos := List.length_pos_iff.mpr _hchunk
    have hfits := buffer.fits
    simp only [PartBuffer.extend, PartBuffer.rest, PartBuffer.empty, directPartBytes, ne_eq,
      List.length_append, List.length_take, List.length_drop, List.length_nil,
      ← List.length_eq_zero_iff] at *
    omega

/-- A chunk is hashed and buffered, and full buffers are uploaded. -/
def write (chunk : Bytes) : TxMethod DirectS3Sink Unit := do
  let sink ← get
  if sink.finished then throw .finished
  else match checkedAdd 64 sink.outputBytes chunk.length with
    | none => throw .outputMismatch
    | some outputBytes =>
      modify ({ · with
        outputBytes := outputBytes
        outputHasher := sink.outputHasher ++ chunk
        outputVerified := false })
      writeLoop sink.buffer chunk

def verifyOutput (expectedSize : Nat) (expectedSha256 : String) : TxMethod DirectS3Sink Unit := do
  let sink ← get
  let actualDigest := sha256Hex sink.outputHasher
  if sink.outputBytes ≠ expectedSize ∨ actualDigest ≠ expectedSha256 then throw .outputMismatch
  else
    let expected := { sink.operation.expected with
      digest := some actualDigest
      size := some expectedSize }
    modify fun sink => { sink with operation := { sink.operation with expected := expected } }
    journal (setExpected sink.operation.id expected)
    modify ({ · with outputVerified := true })

end Digests

/-! ### Reconciliation -/

/-- The abort of every upload that the listing shows of the operation. -/
def abortUploads (operation : OperationRecord) : List DiscoveredUpload → TxMethod DirectS3Sink Unit
  | [] => pure ()
  | upload :: rest => do
    evidence "abort_discovered_before" [("upload_id", upload.uploadId)]
    backend (abortMultipart operation upload.uploadId)
    evidence "abort_discovered_after" [("upload_id", upload.uploadId)]
    abortUploads operation rest

def abortDiscovered (pages : Nat) : TxMethod DirectS3Sink Unit := do
  let operation := (← get).operation
  abortUploads operation (← discoverIncomplete pages operation)

def markCommitUnknown : TxMethod DirectS3Sink Unit := do
  journal (transition (← get).operation.id .completing .commitUnknown none)
  modify (setState .commitUnknown)
  evidence "completion_unknown" []

/-- A completion that a probe has found, recorded; the record of the operation then. -/
def adoptCompletion (operation : OperationRecord) (found : StoredObjectMeta) :
    TxMethod DirectS3Sink OperationRecord := do
  let sink ← get
  let stored := if sink.exactVersionRecovery then found
    else { found with versionHistoryComplete := false }
  deleteRedundantVersions sink.operation stored
  evidence stored.evidenceKind (stored.evidenceDetail ++ [("reconciled", "true")])
  journal (transition operation.id .commitUnknown .committed (some stored))
  return { operation with state := .committed, committed := some stored }

/-- An exact absence; the record of the operation once it is confirmed and recorded. -/
def adoptAbsence (operation : OperationRecord) :
    TxMethod DirectS3Sink (Option OperationRecord) := do
  let now ← unixTimeMs
  if ← journal (confirmExactAbsence operation.id now exactAbsenceConfirmationDelay) then
    journal (transition operation.id .commitUnknown .provenAborted none)
    return some { operation with state := .provenAborted }
  else return none

/-- The end of a reconciliation: the metadata of the commit, if there was one. -/
def settle (operation : OperationRecord) : TxMethod DirectS3Sink (Option StoredObjectMeta) := do
  modify ({ · with operation := operation })
  if operation.state = .committed then
    match operation.committed with
    | some stored => return some stored
    | none => throw (.journal (.corrupt "committed operation has no destination metadata"))
  else return none

/-- The probe of an operation whose completion is unknown. -/
def probeUnknown (operation : OperationRecord) :
    TxMethod DirectS3Sink (Option StoredObjectMeta) := do
  match ← backend (probeCompletion operation) with
  | .committed found => settle (← adoptCompletion operation found)
  | .provenAbsentExact =>
    match ← adoptAbsence operation with
    | some operation => settle operation
    | none =>
      modify ({ · with operation := operation })
      return none
  | .provenAbsent | .inconclusive => settle operation

/-- Asks the journal, and the provider if it does not know, about the commit. -/
def reconcileCompletion : TxMethod DirectS3Sink (Option StoredObjectMeta) := do
  let id := (← get).operation.id
  match ← journal (getOperation id) with
  | none => throw (.journal (.notFound id))
  | some operation =>
    if operation.state = .completing then
      journal (transition operation.id .completing .commitUnknown none)
      probeUnknown { operation with state := .commitUnknown }
    else if operation.state = .commitUnknown then probeUnknown operation
    else settle operation

/-! ### Commit -/

/-- The calls of one of the two commits. -/
structure Commit where
  call : String
  detail : List (String × String)
  launch : OperationRecord → Int → TxMethod DirectS3Sink Nat
  cleanup : TxMethod DirectS3Sink Unit
  exhausted : String

/-- A commit that the provider has acknowledged. -/
def recordCommit (call : String) (attempt : Nat) (answer : StoredObjectMeta) :
    TxMethod DirectS3Sink StoredObjectMeta := do
  let sink ← get
  let stored := if 1 < attempt ∧ sink.exactVersionRecovery = false then
    { answer with versionHistoryComplete := false } else answer
  deleteRedundantVersions sink.operation stored
  match ← transition sink.operation.id .completing .committed (some stored) with
  | .error error =>
    match ← Method.attempt (δ := TransactionError) reconcileCompletion with
    | .ok (some recovered) => return recovered
    | _ => throw (.journal error)
  | .ok () =>
    modify (setState .committed)
    let _ ← Method.attempt (δ := TransactionError)
      (evidence stored.evidenceKind (stored.evidenceDetail ++ [("attempt", toString attempt)]))
    let _ ← Method.attempt (δ := TransactionError)
      (evidence (call ++ "_after") [("attempt", toString attempt)])
    return stored

/-- A commit that the provider has refused. -/
def recordRefusal (commit : Commit) (error : BackendError) :
    TxMethod DirectS3Sink StoredObjectMeta := do
  commit.cleanup
  journal (transition (← get).operation.id .completing .provenAborted none)
  modify fun sink => { sink.setState .provenAborted with finished := true }
  throw (.backend error)

/-- The attempts of a commit; `priorAmbiguous` once one of them may have gone through. -/
def commitAttempts (commit : Commit) : (remaining : Nat) → (attempt : Nat) →
    (priorAmbiguous : Bool) → (lastError : Option BackendError) →
    TxMethod DirectS3Sink StoredObjectMeta
  | 0, _, _, lastError => do
    markCommitUnknown
    match ← reconcileCompletion with
    | some recovered => return recovered
    | none => throw (.backend (lastError.getD (.ambiguous commit.exhausted)))
  | remaining + 1, attempt, priorAmbiguous, _ => do
    evidence (commit.call ++ "_before") (("attempt", toString attempt) :: commit.detail)
    let notBefore ← recordLaunch
    let handle ← commit.launch (← get).operation notBefore
    match ← awaitMutation handle with
    | .ok stored => recordCommit commit.call attempt stored
    | .error error =>
      let definitive := error.kind == .definitive && !priorAmbiguous
      let _ ← Method.attempt (δ := TransactionError)
        (evidence (commit.call ++ if definitive then "_attempt_definitive"
          else "_attempt_ambiguous")
          [("attempt", toString attempt), ("kind", error.kind.debug)])
      if definitive then recordRefusal commit error
      else commitAttempts commit remaining (attempt + 1) true (some error)

/-- The completion of the upload with the parts that were acknowledged. -/
def multipartCommit (pages : Nat) (uploadId : String) (parts : List UploadedPart) : Commit where
  call := "complete_multipart"
  detail := [("part_count", toString parts.length)]
  launch operation notBefore := launchComplete operation uploadId parts notBefore
  cleanup := do
    backend (abortMultipart (← get).operation uploadId)
    abortDiscovered pages
  exhausted := "complete retry budget exhausted"

section Digests

variable [Sha256]

/-- The put of the whole object. -/
def putCommit (body : Bytes) : Commit where
  call := "put_object"
  detail := [("digest", sha256Hex body), ("size", toString body.length)]
  launch operation notBefore := launchPut operation body notBefore
  cleanup := pure ()
  exhausted := "PUT retry budget exhausted"

def completeSinglePut : TxMethod DirectS3Sink StoredObjectMeta := do
  let sink ← get
  journal (setOpen sink.operation.id none)
  modify (setState .open)
  journal (transition sink.operation.id .open .completing none)
  modify fun sink => { sink.setState .completing with buffer := .empty }
  commitAttempts (putCommit sink.buffer.bytes) sink.maxAttempts 1 false none

def completeMultipart (pages : Nat) (uploadId : String) :
    TxMethod DirectS3Sink StoredObjectMeta := do
  let buffer := (← get).buffer
  if buffer.bytes ≠ [] then uploadBuffer buffer
  journal (transition (← get).operation.id .open .completing none)
  modify (setState .completing)
  let sink ← get
  commitAttempts (multipartCommit pages uploadId sink.parts) sink.maxAttempts 1 false none

def complete (pages : Nat) : TxMethod DirectS3Sink StoredObjectMeta := do
  let sink ← get
  if sink.finished then throw .finished
  else if !sink.outputVerified then throw .outputMismatch
  else
    let stored ← match sink.uploadId with
      | some uploadId => completeMultipart pages uploadId
      | none => completeSinglePut
    modify ({ · with finished := true })
    return stored

end Digests

/-! ### Abort -/

/-- The abort of an operation that is not about to commit. -/
def abortOpen (pages : Nat) : TxMethod DirectS3Sink Unit := do
  modify (setState .aborting)
  let sink ← get
  match sink.uploadId with
  | some uploadId =>
    evidence "abort_multipart_before" []
    backend (abortMultipart sink.operation uploadId)
    evidence "abort_multipart_after" []
  | none => pure ()
  abortDiscovered pages
  journal (transition sink.operation.id .aborting .provenAborted none)
  modify fun sink => { sink.setState .provenAborted with finished := true }

def abort (pages : Nat) : TxMethod DirectS3Sink Unit := do
  let sink ← get
  if sink.finished then pure ()
  else match sink.operation.state with
    | .intent =>
      journal (transition sink.operation.id .intent .aborting none)
      abortOpen pages
    | .open =>
      journal (transition sink.operation.id .open .aborting none)
      abortOpen pages
    | .aborting => abortOpen pages
    | .completing | .commitUnknown => throw .completionAmbiguous
    | .committed | .provenAborted => modify ({ · with finished := true })

end DirectS3Sink

end S4.Transaction
