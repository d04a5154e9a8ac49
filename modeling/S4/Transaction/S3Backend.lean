import S4.Transaction.Calls

/-!
# Transaction — S3Backend

A multipart upload is created before the digest and the size of its object are known (`s3.rs`).
When it is complete, `rewriteCompletedMultipartMetadata` copies the object part by part into a new
upload that carries them as metadata.  What the provider answers is given: a call under the fence is
refused or answered, and both failures are a `BackendError`.

**No upload is left open** by a rewrite, unless one of the two checks between the creation of the
upload and the copies fails (`rewrite_aborts_iff`).
-/

namespace S4.Transaction

/-! ### Rewriting the metadata of a completed object -/

/-- The mutations of a rewrite, on the object of its operation. -/
inductive RewriteCall where
  | createMultipartUpload
  | uploadPartCopy (uploadId : String) (partNumber : Nat) (sourceVersion : Option String)
      (start stop : Nat)
  | completeMultipartUpload (uploadId : String) (parts : List UploadedPart)
  | abortMultipartUpload (uploadId : String)
deriving DecidableEq

/-- What the provider answers: each call of a rewrite is made at most once. -/
structure RewriteAnswers where
  create : Except BackendError (Option String)
  copy : Nat → Except BackendError (Option String)
  complete : Except BackendError (Option String × Option String)
  resolve : String → Except BackendError (Option StoredObjectMeta)

/-- A computation that may fail, and the calls that it makes. -/
abbrev Calling (α : Type) : Type := List RewriteCall → Except BackendError α × List RewriteCall

variable {uploadId : String}

namespace Calling

variable {α β : Type}

def ofExcept (r : Except BackendError α) : Calling α := fun log => (r, log)

def call (c : RewriteCall) (r : Except BackendError α) : Calling α := fun log => (r, log ++ [c])

def andThen (m : Calling α) (f : α → Calling β) : Calling β := fun log =>
  match m log with
  | (.error e, log) => (.error e, log)
  | (.ok a, log) => f a log

/-- An upload is aborted when the computation fails. -/
def orAbort (uploadId : String) (m : Calling α) : Calling α := fun log =>
  match m log with
  | (.error e, log) => (.error e, log ++ [.abortMultipartUpload uploadId])
  | (.ok a, log) => (.ok a, log)

theorem orAbort_error {m : Calling α} {log log' : List RewriteCall}
    {e : BackendError} (h : m.orAbort uploadId log = (.error e, log')) :
    .abortMultipartUpload uploadId ∈ log' := by
  rw [orAbort] at h
  split at h
  · cases h
    exact List.mem_append_right _ List.mem_cons_self
  · cases h

end Calling

/-- The value that the answer must have. -/
def present {α : Type} (missing : BackendError) : Option α → Except BackendError α
  | none => .error missing
  | some a => .ok a

section Rewrite

variable (exactVersionRecovery : Bool) (size : Nat) (sourceVersion : Option String)
  (answers : RewriteAnswers)

/-- Copy the parts that remain. -/
def copyParts (uploadId : String) : (remaining partNumber : Nat) → List UploadedPart →
    Calling (List UploadedPart)
  | 0,             _,          parts => .ofExcept (.ok parts)
  | remaining + 1, partNumber, parts =>
    let start := (partNumber - 1) * directPartBytes
    let stop := min (start + directPartBytes - 1) (size - 1)
    let copied := (answers.copy partNumber).bind
      (present (.ambiguous "metadata rewrite upload-part-copy response omitted ETag"))
    (Calling.call (.uploadPartCopy uploadId partNumber sourceVersion start stop) copied).andThen
      fun etag => copyParts uploadId remaining (partNumber + 1) (parts ++ [⟨partNumber, etag⟩])

/-- What a completed rewrite has stored. -/
def rewriteStored : Option String × Option String → Except BackendError StoredObjectMeta
  | (etag, versionId) =>
    if exactVersionRecovery then do
      let versionId ← present
        (.ambiguous "metadata rewrite completion response omitted its provider version ID")
        versionId
      present (.ambiguous
        "metadata rewrite completed but its exact provider version was not enumerable")
        (← answers.resolve versionId)
    else .ok ⟨etag, versionId, [], true⟩

def partCount : Nat := (size + directPartBytes - 1) / directPartBytes

/-- The copies and the completion, which an abort follows when they fail. -/
def rewriteParts (uploadId : String) : Calling StoredObjectMeta :=
  let copied := copyParts size sourceVersion answers uploadId (partCount size) 1 []
  (copied.andThen fun parts =>
    (Calling.call (.completeMultipartUpload uploadId parts) answers.complete).andThen fun output =>
      .ofExcept (rewriteStored exactVersionRecovery answers output)).orAbort uploadId

/-- The checks behind the creation of the upload, and the copies. -/
def rewriteUpload (uploadId : String) : Calling StoredObjectMeta :=
  if exactVersionRecovery ∧ sourceVersion = none then
    .ofExcept (.error (.ambiguous "metadata rewrite source omitted its exact provider version ID"))
  else if partCount size > 10000 then
    .ofExcept (.error (.definitive "multipart object has too many parts"))
  else rewriteParts exactVersionRecovery size sourceVersion answers uploadId

def rewriteCompletedMultipartMetadata (expected : ExpectedObject) : Calling StoredObjectMeta :=
  match expected.size with
  | none => .ofExcept (.error (.definitive "verified multipart output is missing an expected size"))
  | some 0 => .ofExcept (.error (.definitive "cannot rewrite a zero-byte multipart object"))
  | some size =>
    let created := answers.create.bind
      (present (.ambiguous "metadata rewrite create-multipart response omitted upload ID"))
    (Calling.call .createMultipartUpload created).andThen
      (rewriteUpload exactVersionRecovery size sourceVersion answers)

variable {exactVersionRecovery size sourceVersion answers}

/-- A rewrite whose upload was created goes on with it. -/
theorem rewrite_created {expected : ExpectedObject} (hsize : expected.size = some size)
    (hpos : 0 < size) (hcreate : answers.create = .ok (some uploadId)) :
    rewriteCompletedMultipartMetadata exactVersionRecovery sourceVersion answers expected [] =
      rewriteUpload exactVersionRecovery size sourceVersion answers uploadId
        [.createMultipartUpload] := by
  obtain ⟨n, rfl⟩ : ∃ n, size = n + 1 := ⟨size - 1, by omega⟩
  simp only [rewriteCompletedMultipartMetadata, hsize, hcreate, Except.bind, present, Calling.call,
    Calling.andThen, List.nil_append]

end Rewrite

/-- **A rewrite that fails has aborted its upload**, whatever the provider answers, if and only if
the checks between the creation of the upload and the copies pass. -/
theorem rewrite_aborts_iff (exactVersionRecovery : Bool) (sourceVersion : Option String)
    (expected : ExpectedObject) :
    (∀ answers uploadId error log,
      rewriteCompletedMultipartMetadata exactVersionRecovery sourceVersion answers expected [] =
        (.error error, log) →
      .createMultipartUpload ∈ log → answers.create = .ok (some uploadId) →
      .abortMultipartUpload uploadId ∈ log) ↔
      ∀ size, expected.size = some size → 0 < size →
        (exactVersionRecovery = true → sourceVersion ≠ none) ∧ partCount size ≤ 10000 := by
  constructor
  · intro h size hsize hpos
    -- a provider that creates the upload, whatever it answers then
    have h := h ⟨.ok (some ""), fun _ => .ok none, .ok (none, none), fun _ => .ok none⟩ ""
    rw [rewrite_created hsize hpos rfl, rewriteUpload] at h
    constructor
    · intro hexact hsource
      rw [if_pos ⟨hexact, hsource⟩] at h
      exact absurd (h _ _ rfl List.mem_cons_self rfl) (by simp)
    · by_contra hmany
      by_cases hsource : exactVersionRecovery = true ∧ sourceVersion = none
      · rw [if_pos hsource] at h
        exact absurd (h _ _ rfl List.mem_cons_self rfl) (by simp)
      · rw [if_neg hsource, if_pos (Nat.lt_of_not_le hmany)] at h
        exact absurd (h _ _ rfl List.mem_cons_self rfl) (by simp)
  · intro h answers uploadId error log hrun hcreated hanswer
    rcases hsize : expected.size with _ | _ | n
    · simp only [rewriteCompletedMultipartMetadata, hsize] at hrun
      cases hrun
      cases hcreated
    · simp only [rewriteCompletedMultipartMetadata, hsize] at hrun
      cases hrun
      cases hcreated
    · obtain ⟨hsource, hfew⟩ := h _ hsize n.succ_pos
      rw [rewrite_created hsize n.succ_pos hanswer, rewriteUpload,
        if_neg (fun hp => hsource hp.1 hp.2), if_neg (Nat.not_lt.mpr hfew)] at hrun
      exact Calling.orAbort_error hrun

/-- **A source without its version leaves the upload open.** -/
theorem rewrite_leaves_upload :
    ∃ answers error, answers.create = .ok (some "upload") ∧
      rewriteCompletedMultipartMetadata true none answers ⟨none, some 1, []⟩ [] =
        (.error error, [.createMultipartUpload]) := by
  refine ⟨⟨.ok (some "upload"), fun _ => .ok none, .ok (none, none), fun _ => .ok none⟩,
    .ambiguous "metadata rewrite source omitted its exact provider version ID", rfl, ?_⟩
  rw [rewrite_created rfl Nat.one_pos rfl, rewriteUpload, if_pos ⟨rfl, rfl⟩]
  rfl

end S4.Transaction
