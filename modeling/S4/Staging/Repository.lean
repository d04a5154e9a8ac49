import S4.Staging.Types

/-!
# Staging — The in-memory repository

The calls of `InMemoryMultipartRepository`, each as a function from the state to its answer and the
state it leaves.  A call that fails half way leaves what it has changed by then.  `CallEnv` carries
what a call takes from its surroundings: the clock of `now_ms()` and the UUID that `begin_part`
draws.
-/

namespace S4.Staging

open Lib

structure CallEnv where
  nowMs : Int
  uuid : String
deriving DecidableEq

/-- The answer of a call, and the state it leaves. -/
abbrev Outcome (α : Type) : Type := Except StagingError α × MemoryState

variable (env : CallEnv) (s : MemoryState) (identity : MultipartIdentity)

def sameIdentity (upload : MultipartUpload) (identity : MultipartIdentity) : Bool :=
  upload.identity.tenantId == identity.tenantId &&
    upload.identity.credentialPolicyId == identity.credentialPolicyId &&
    upload.identity.bucket == identity.bucket &&
    upload.identity.key == identity.key &&
    upload.identity.uploadId == identity.uploadId

namespace MemoryState

/-- The upload under the identity's id, if the identity is its own. -/
def authorized : Option MultipartUpload :=
  (s.uploads.get? identity.uploadId).filter (sameIdentity · identity)

def modifyUpload (uploadId : String) (f : MultipartUpload → MultipartUpload) : MemoryState :=
  { s with uploads := s.uploads.modify uploadId f }

/-- The staged and reserved bytes of the tenant's uploads, and of all uploads.  (The source adds up
the first with a plain `+`.) -/
def usedBytes (tenantId : String) : Nat × Nat :=
  s.uploads.values.foldl (fun used candidate =>
    let bytes := satAdd 64 candidate.stagedBytes candidate.reservedBytes
    (used.1 + (if candidate.identity.tenantId = tenantId then bytes else 0),
      satAdd 64 used.2 bytes)) (0, 0)

/-- The highest attempt number of a part so far. -/
def lastAttempt (uploadId : String) (partNumber : Nat) : Nat :=
  ((s.attempts.values.filter fun value =>
    value.part.uploadId == uploadId && value.part.partNumber == partNumber).map
      fun value => value.part.attempt).foldl max 0

/-- The upload's current parts, in the order of their numbers. -/
def sortedParts (uploadId : String) : List MultipartPart :=
  (s.parts.values.filter fun part => part.uploadId == uploadId).insertionSort
    fun a b => a.partNumber ≤ b.partNumber

/-- Does the upload still have attempts or pending parts? -/
def holdsArtifacts (uploadId : String) : Bool :=
  (s.attempts.any fun attempt => attempt.part.uploadId == uploadId) ||
    s.pending.any fun pending => pending.uploadId == uploadId

end MemoryState

/-! ### Uploads and parts -/

def create (upload : MultipartUpload) : Outcome Unit :=
  let active := (s.uploads.values.filter fun candidate =>
    candidate.identity.tenantId == upload.identity.tenantId && candidate.lifecycle == .open).length
  if active ≥ maxActiveUploads then (.error .quotaExceeded, s)
  else
    let s' := { s with uploads := s.uploads.insert upload.identity.uploadId upload }
    if s.uploads.contains upload.identity.uploadId then
      (.error (.persistence "duplicate upload id"), s')
    else (.ok (), s')

def getAuthorized : Outcome MultipartUpload :=
  match s.authorized identity with
  | none => (.error .notFound, s)
  | some upload => (.ok upload, s)

def replacePart (part : MultipartPart) : Outcome (Option MultipartPart) :=
  if part.partNumber = 0 ∨ part.partNumber > maxParts then (.error .invalidPart, s)
  else
    let previous := s.parts.get? (identity.uploadId, part.partNumber)
    match s.authorized identity with
    | none => (.error .notFound, s)
    | some upload =>
      let next := satAdd 64 (upload.stagedBytes - previous.elim 0 (·.sizeBytes)) part.sizeBytes
      if upload.lifecycle ≠ .open then (.error .notOpen, s)
      else if next > upload.snapshot.maxStagedBytes then (.error .quotaExceeded, s)
      else if previous.any (part.attempt ≤ ·.attempt) then
        (.error (.persistence "stale part replacement"), s)
      else
        (.ok previous,
          { s.modifyUpload identity.uploadId fun u =>
              { u with stagedBytes := next, updatedAtMs := env.nowMs } with
            parts := s.parts.insert (identity.uploadId, part.partNumber) part })

/-! ### Attempts -/

/-- The key that `begin_part` formats for a new artifact. -/
def formatArtifactKey (partNumber : Nat) (uuid : String) : String :=
  artifactRoot ++ identity.tenantId ++ "/" ++ identity.uploadId ++ "/" ++ toString partNumber ++
    "/" ++ uuid

/-- The ticket of a new attempt. -/
def PendingPart.make (partNumber attempt reservedBytes : Nat) (uuid : String) : PendingPart where
  uploadId := identity.uploadId
  partNumber := partNumber
  attempt := attempt
  artifactKey := formatArtifactKey identity partNumber uuid
  reservedBytes := reservedBytes

/-- The attempt that a ticket stands for, with nothing uploaded yet. -/
def PendingPart.toAttempt (pending : PendingPart) (now : Int) : MemoryAttempt where
  part :=
    { uploadId := pending.uploadId, partNumber := pending.partNumber, attempt := pending.attempt,
      artifactKey := pending.artifactKey, etag := "", checksumSha256 := "", sizeBytes := 0,
      createdAtMs := now }
  reservedBytes := pending.reservedBytes
  lifecycle := .pending

/-- Does the new reservation fit the upload's own limit? -/
def fitsUpload (upload : MultipartUpload) (reservedBytes : Nat) : Bool :=
  match (checkedAdd 64 upload.stagedBytes upload.reservedBytes).bind
      (checkedAdd 64 · reservedBytes) with
  | none => false
  | some total => total ≤ upload.snapshot.maxStagedBytes

/-- Does the new reservation fit a quota of which `used` bytes are taken? -/
def fitsQuota (used reservedBytes quota : Nat) : Bool :=
  match checkedAdd 64 used reservedBytes with
  | none => false
  | some total => total ≤ quota

/-- The state with the new attempt and its reservation. -/
def MemoryState.open (pending : PendingPart) (now : Int) : MemoryState where
  uploads := s.uploads.modify pending.uploadId fun u =>
    { u with reservedBytes := u.reservedBytes + pending.reservedBytes, updatedAtMs := now }
  parts := s.parts
  attempts := s.attempts.insert pending.artifactKey (pending.toAttempt now)
  pending := s.pending.insert pending.artifactKey pending

/-- A ticket for a new attempt at a part, with its bytes reserved. -/
def beginPart (quotas : StagingQuotaLimits) (env : CallEnv) (s : MemoryState)
    (identity : MultipartIdentity) (partNumber reservedBytes : Nat) (now : Int) :
    Outcome PendingPart :=
  if partNumber = 0 ∨ partNumber > maxParts ∨ reservedBytes = 0 then (.error .invalidPart, s)
  else match s.authorized identity with
    | none => (.error .notFound, s)
    | some upload =>
      let used := s.usedBytes identity.tenantId
      if upload.lifecycle ≠ .open ∨ upload.expiresAtMs ≤ now then (.error .notOpen, s)
      else if !fitsUpload upload reservedBytes then (.error .quotaExceeded, s)
      else if !fitsQuota used.1 reservedBytes quotas.tenantBytes ||
          !fitsQuota used.2 reservedBytes quotas.globalBytes then
        (.error .quotaExceeded, s)
      else match checkedAdd 32 (s.lastAttempt identity.uploadId partNumber) 1 with
        | none => (.error .invalidPart, s)
        | some attempt =>
          let pending := PendingPart.make identity partNumber attempt reservedBytes env.uuid
          (.ok pending, s.open pending now)

/-- Is the part the one that the ticket was drawn for, within the reservation? -/
def PendingPart.covers (pending : PendingPart) (part : MultipartPart) : Bool :=
  part.uploadId == pending.uploadId && part.partNumber == pending.partNumber &&
    part.attempt == pending.attempt && part.artifactKey == pending.artifactKey &&
    part.sizeBytes ≤ pending.reservedBytes

/-- The attempt behind the previous part of that number is retired. -/
def MemoryState.retire (previous : Option MultipartPart) : MemoryState :=
  match previous with
  | none => s
  | some old =>
    { s with attempts := s.attempts.modify old.artifactKey fun a =>
        { a with lifecycle := .retired } }

/-- The attempt has become the current part of its number. -/
def MemoryState.publish (uploadId : String) (part : MultipartPart) : MemoryState where
  uploads := s.uploads
  parts := s.parts.insert (uploadId, part.partNumber) part
  attempts := s.attempts.modify part.artifactKey fun _ => ⟨part, 0, .current⟩
  pending := s.pending.erase part.artifactKey

/-- The accounting at the end of `commit_part`: the reservation is released and the size charged. -/
def MemoryState.settle (upload : MultipartUpload)
    (uploadId : String) (pending : PendingPart) (part : MultipartPart)
    (previous : Option MultipartPart) : Outcome (List MultipartPart) :=
  match checkedSub upload.reservedBytes pending.reservedBytes with
  | none => (.error (.persistence "multipart reservation missing"), s)
  | some reserved =>
    match checkedAdd 64 upload.stagedBytes part.sizeBytes with
    | none =>
      (.error .quotaExceeded,
        s.modifyUpload uploadId fun u => { u with reservedBytes := reserved })
    | some staged =>
      (.ok previous.toList,
        s.modifyUpload uploadId fun u =>
          { u with reservedBytes := reserved, stagedBytes := staged,
                   updatedAtMs := env.nowMs })

def commitPart (pending : PendingPart) (part : MultipartPart) : Outcome (List MultipartPart) :=
  if !pending.covers part then (.error .invalidPart, s)
  else match s.authorized identity with
    | none => (.error .notFound, s)
    | some upload =>
      if upload.lifecycle ≠ .open then (.error .notOpen, s)
      else
        let previous := s.parts.get? (identity.uploadId, part.partNumber)
        let s' := s.retire previous
        match s'.attempts.get? pending.artifactKey with
        | none => (.error .notFound, s')
        | some attempt =>
          if attempt.lifecycle ≠ .pending ∨ attempt.reservedBytes ≠ pending.reservedBytes then
            (.error .notFound, s')
          else
            (s'.publish identity.uploadId part).settle env upload identity.uploadId pending
              part previous

/-- The attempt and whatever refers to its artifact are gone. -/
def MemoryState.forget (artifactKey : String) : MemoryState where
  uploads := s.uploads
  parts := s.parts.retain fun _ part => part.artifactKey != artifactKey
  attempts := s.attempts.erase artifactKey
  pending := s.pending.erase artifactKey

/-- The bytes of a deleted attempt are given back. -/
def MemoryState.release (attempt : MemoryAttempt) : Outcome Unit :=
  match s.uploads.get? attempt.part.uploadId with
  | none => (.error (.persistence "multipart upload disappeared"), s)
  | some upload =>
    if attempt.lifecycle = .pending then
      match checkedSub upload.reservedBytes attempt.reservedBytes with
      | none => (.error (.persistence "multipart reservation underflow"), s)
      | some reserved =>
        (.ok (), s.modifyUpload attempt.part.uploadId fun u =>
          { u with reservedBytes := reserved, updatedAtMs := env.nowMs })
    else
      match checkedSub upload.stagedBytes attempt.part.sizeBytes with
      | none => (.error (.persistence "multipart staged bytes underflow"), s)
      | some staged =>
        (.ok (), s.modifyUpload attempt.part.uploadId fun u =>
          { u with stagedBytes := staged, updatedAtMs := env.nowMs })

def confirmArtifactDeleted (artifactKey : String) : Outcome Unit :=
  match s.attempts.get? artifactKey with
  | none => (.ok (), s)
  | some attempt => (s.forget artifactKey).release env attempt

def discardPending (_identity : MultipartIdentity) (pending : PendingPart) : Outcome Unit :=
  confirmArtifactDeleted env s pending.artifactKey

/-- May the artifact of the attempt be cleaned up? -/
def MemoryState.isCandidate (now : Int) (attempt : MemoryAttempt) : Bool :=
  match s.uploads.get? attempt.part.uploadId with
  | none => false
  | some upload =>
    let oldPending :=
      attempt.lifecycle == .pending && attempt.part.createdAtMs ≤ now - reconciliationGrace
    upload.lifecycle != .open || attempt.lifecycle == .retired || oldPending

/-- The first `limit` attempts that may be cleaned up, in iteration order. -/
def MemoryState.candidates (now : Int) (limit : Nat) : List CleanupCandidate :=
  ((s.attempts.toList.filter fun e => s.isCandidate now e.2).map fun e =>
    ⟨e.2.part.uploadId, e.1⟩).take limit

def cleanupCandidates (now : Int) (limit : Nat) : Outcome (List CleanupCandidate) :=
  (.ok (s.candidates now limit), s)

def knownArtifactKeys : Outcome (KeyMap String Int) :=
  (.ok ((∅ : KeyMap String Int).insertAll
    (s.attempts.toList.map fun e => (e.1, e.2.part.createdAtMs))), s)

def listParts (marker limit : Nat) : Outcome (List MultipartPart × Bool) :=
  match s.authorized identity with
  | none => (.error .notFound, s)
  | some _ =>
    let parts := (s.parts.values.filter fun part =>
      part.uploadId == identity.uploadId && part.partNumber > marker).insertionSort
        fun a b => a.partNumber ≤ b.partNumber
    (.ok (parts.take limit, decide (parts.length > limit)), s)

/-! ### Completion -/

/-- The body of the loop of `validate_selected_parts`, over the requests that are left. -/
def selectParts (current : List MultipartPart) (previous : Nat) :
    List CompletePart → Except StagingError (List MultipartPart)
  | [] => .ok []
  | request :: rest =>
    if request.partNumber = 0 ∨ request.partNumber ≤ previous then .error .invalidPart
    else match current.find? fun part => part.partNumber == request.partNumber with
      | none => .error .invalidPart
      | some part =>
        if part.etag ≠ request.etag ∨ request.checksumSha256.any (· != part.checksumSha256) then
          .error .invalidPart
        else (selectParts current request.partNumber rest).map (part :: ·)

/-- The requested parts, in rising order, as they are staged. -/
def validateSelectedParts (current : List MultipartPart) (requested : List CompletePart) :
    Except StagingError (List MultipartPart) :=
  if requested.isEmpty then .error .invalidPart else selectParts current 0 requested

/-- What the state of the upload decides about an acquisition, before the parts are looked at:
`none` lets it go on. -/
def acquireGate (upload : MultipartUpload) (fingerprint : String) (now : Int) :
    Option (Except StagingError CompletionAcquire) :=
  match upload.lifecycle with
  | .completed =>
    match upload.completionResult with
    | none => some (.error (.persistence "completed upload is missing its result"))
    | some result =>
      if upload.completeRequestFingerprint = some fingerprint then some (.ok (.replayed result))
      else some (.error .completionConflict)
  | .aborted | .expired => some (.error .notOpen)
  | .completing =>
    if upload.completeRequestFingerprint ≠ some fingerprint then some (.error .completionConflict)
    else if upload.completionLeaseExpiresAtMs.any (· > now) then some (.ok .busy)
    else none
  | .open => if upload.expiresAtMs ≤ now then some (.error .notOpen) else none

/-- The upload under a new completion lease. -/
def MultipartUpload.lease (upload : MultipartUpload) (fingerprint owner : String)
    (leaseExpiresAtMs : Int) (token : Nat) (now : Int) : MultipartUpload :=
  { upload with
    lifecycle := .completing
    completeRequestFingerprint := some fingerprint
    completionLeaseOwner := some owner
    completionLeaseExpiresAtMs := some leaseExpiresAtMs
    completionFencingToken := token
    updatedAtMs := now }

/-- A completion lease under a new fencing token, or the recorded result. -/
def acquireCompletion (fingerprint : String)
    (parts : List CompletePart) (owner : String) (leaseExpiresAtMs now : Int) :
    Outcome CompletionAcquire :=
  match s.authorized identity with
  | none => (.error .notFound, s)
  | some upload =>
    match acquireGate upload fingerprint now with
    | some answer => (answer, s)
    | none =>
      let cleanupParts := s.sortedParts identity.uploadId
      match validateSelectedParts cleanupParts parts with
      | .error e => (.error e, s)
      | .ok selectedParts =>
        match checkedAdd 64 upload.completionFencingToken 1 with
        | none => (.error (.persistence "completion fencing token exhausted"), s)
        | some token =>
          (.ok (.acquired ⟨token, selectedParts, cleanupParts⟩),
            s.modifyUpload identity.uploadId fun u =>
              u.lease fingerprint owner leaseExpiresAtMs token now)

def renewCompletion (fencingToken : Nat) (leaseExpiresAtMs : Int) : Outcome Unit :=
  match s.authorized identity with
  | none => (.error .notFound, s)
  | some upload =>
    if upload.lifecycle ≠ .completing ∨ upload.completionFencingToken ≠ fencingToken then
      (.error .fenced, s)
    else
      (.ok (), s.modifyUpload identity.uploadId fun u =>
        { u with completionLeaseExpiresAtMs := some leaseExpiresAtMs, updatedAtMs := env.nowMs })

def checkCompletionLease (fencingToken : Nat) (now : Int) : Outcome Unit :=
  match s.authorized identity with
  | none => (.error .notFound, s)
  | some upload =>
    if upload.lifecycle = .completing ∧ upload.completionFencingToken = fencingToken ∧
        upload.completionLeaseExpiresAtMs.any (· > now) then (.ok (), s)
    else (.error .fenced, s)

/-- The completed upload: the result is recorded and the lease is gone. -/
def MultipartUpload.complete (upload : MultipartUpload) (result : MultipartCompletionResult)
    (now : Int) : MultipartUpload :=
  { upload with
    lifecycle := .completed
    completionResult := some result
    completionLeaseOwner := none
    completionLeaseExpiresAtMs := none
    tombstoneUntilMs := some (now + defaultExpiry)
    updatedAtMs := now }

def completeCompletion (fencingToken : Nat)
    (result : MultipartCompletionResult) (now : Int) : Outcome Unit :=
  match s.authorized identity with
  | none => (.error .notFound, s)
  | some upload =>
    if upload.lifecycle ≠ .completing ∨ upload.completionFencingToken ≠ fencingToken ∨
        upload.completionLeaseExpiresAtMs.all (· ≤ now) then (.error .fenced, s)
    else (.ok (), s.modifyUpload identity.uploadId fun u => u.complete result now)

/-! ### The end of an upload -/

/-- The upload has ended without being completed. -/
def MultipartUpload.finish (upload : MultipartUpload) (lifecycle : MultipartLifecycle)
    (now : Int) : MultipartUpload :=
  { upload with
    lifecycle := lifecycle
    tombstoneUntilMs := some (now + defaultExpiry)
    updatedAtMs := now }

/-- `extract_if` on the parts: those of the given uploads, and the map without them. -/
def MemoryState.extractParts (ids : List String) : List MultipartPart × MemoryState :=
  ((s.parts.toList.filter fun e => ids.contains e.1.1).map Prod.snd,
    { s with parts := s.parts.retain fun k _ => !ids.contains k.1 })

def abort (now : Int) : Except AbortMutationError (List MultipartPart) × MemoryState :=
  match s.authorized identity with
  | none => (.error (.preMutation .notFound), s)
  | some upload =>
    if upload.lifecycle ≠ .open then
      if upload.lifecycle = .aborted then (.ok [], s) else (.error (.preMutation .notOpen), s)
    else
      let extracted := (s.modifyUpload identity.uploadId fun u =>
        u.finish .aborted now).extractParts [identity.uploadId]
      (.ok extracted.1, extracted.2)

def deleteTerminalUpload : Outcome Unit :=
  match s.authorized identity with
  | none => (.error .notFound, s)
  | some upload =>
    if !(upload.lifecycle == .aborted || upload.lifecycle == .expired) ||
        s.holdsArtifacts identity.uploadId then
      (.error (.persistence "multipart artifacts remain after cleanup"), s)
    else (.ok (), { s with uploads := s.uploads.erase identity.uploadId })

/-- Is the upload over, past its tombstone, and without artifacts? -/
def MemoryState.isRetirable (now : Int) (upload : MultipartUpload) : Bool :=
  (upload.lifecycle == .completed || upload.lifecycle == .aborted ||
      upload.lifecycle == .expired) &&
    upload.tombstoneUntilMs.any (· ≤ now) && !s.holdsArtifacts upload.identity.uploadId

/-- The ids are removed one after another; an id that is gone is passed over. -/
def removeUploads (uploads : KeyMap String MultipartUpload) :
    List String → List RetiredMultipartUpload × KeyMap String MultipartUpload
  | [] => ([], uploads)
  | id :: rest =>
    match uploads.get? id with
    | none => removeUploads uploads rest
    | some upload =>
      let removed := removeUploads (uploads.erase id) rest
      (⟨upload.identity.uploadId, upload.identity.tenantId, upload.namespaceEpoch⟩ ::
        removed.1, removed.2)

def retireTerminalUploads (now : Int) (limit : Nat) : Outcome (List RetiredMultipartUpload) :=
  let ids := ((s.uploads.values.filter (s.isRetirable now)).take limit).map (·.identity.uploadId)
  let removed := removeUploads s.uploads ids
  (.ok removed.1, { s with uploads := removed.2 })

/-- The first `limit` open uploads past their expiry, in iteration order. -/
def MemoryState.expiredUploads (now : Int) (limit : Nat) : List (String × MultipartUpload) :=
  (s.uploads.toList.filter fun e => e.2.lifecycle == .open && e.2.expiresAtMs ≤ now).take limit

def reapExpired (now : Int) (limit : Nat) : Outcome (List MultipartPart) :=
  let reaped := s.expiredUploads now limit
  let uploads := s.uploads.mapValues fun k u =>
    if k ∈ reaped.map Prod.fst then u.finish .expired now else u
  let extracted := MemoryState.extractParts { s with uploads := uploads }
    (reaped.map fun e => e.2.identity.uploadId)
  (.ok extracted.1, extracted.2)

end S4.Staging
