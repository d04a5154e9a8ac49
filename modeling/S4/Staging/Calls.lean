import S4.Lib.Reach
import S4.Staging.Repository

/-!
# Staging — Calls and histories

Every call of the repository runs under its one lock, so a run is a sequence of calls, by whichever
callers.  A history is the state together with the log of the calls made so far and their answers,
newest first: what has been created, begun or acknowledged is read off the log.

A `HashMap` visits its entries in an unspecified order, and the calls with a limit depend on it.
The step `rehash` lets the order change between any two calls.
-/

namespace S4.Staging

open Lib

/-- The calls, with their arguments. -/
inductive Call where
  | create (upload : MultipartUpload)
  | getAuthorized (identity : MultipartIdentity)
  | replacePart (identity : MultipartIdentity) (part : MultipartPart)
  | beginPart (identity : MultipartIdentity) (partNumber reservedBytes : Nat) (now : Int)
  | commitPart (identity : MultipartIdentity) (pending : PendingPart) (part : MultipartPart)
  | discardPending (identity : MultipartIdentity) (pending : PendingPart)
  | cleanupCandidates (now : Int) (limit : Nat)
  | confirmArtifactDeleted (artifactKey : String)
  | knownArtifactKeys
  | listParts (identity : MultipartIdentity) (marker limit : Nat)
  | acquireCompletion (identity : MultipartIdentity) (fingerprint : String)
      (parts : List CompletePart) (owner : String) (leaseExpiresAtMs now : Int)
  | renewCompletion (identity : MultipartIdentity) (fencingToken : Nat) (leaseExpiresAtMs : Int)
  | checkCompletionLease (identity : MultipartIdentity) (fencingToken : Nat) (now : Int)
  | completeCompletion (identity : MultipartIdentity) (fencingToken : Nat)
      (result : MultipartCompletionResult) (now : Int)
  | abort (identity : MultipartIdentity) (now : Int)
  | deleteTerminalUpload (identity : MultipartIdentity)
  | retireTerminalUploads (now : Int) (limit : Nat)
  | reapExpired (now : Int) (limit : Nat)

/-- What the calls answer when they succeed. -/
inductive Reply where
  | done
  | upload (upload : MultipartUpload)
  | replaced (previous : Option MultipartPart)
  | pending (pending : PendingPart)
  | parts (parts : List MultipartPart)
  | candidates (candidates : List CleanupCandidate)
  | keys (keys : List (String × Int))
  | listing (parts : List MultipartPart) (truncated : Bool)
  | acquire (answer : CompletionAcquire)
  | retired (uploads : List RetiredMultipartUpload)
deriving DecidableEq

def Outcome.reply {α : Type} (o : Outcome α) (f : α → Reply) : Outcome Reply := (o.1.map f, o.2)

/-- The call, run in a state. -/
def Call.run (quotas : StagingQuotaLimits) (env : CallEnv) (s : MemoryState) :
    Call → Outcome Reply
  | .create upload => (Staging.create s upload).reply fun _ => .done
  | .getAuthorized identity => (Staging.getAuthorized s identity).reply .upload
  | .replacePart identity part => (Staging.replacePart env s identity part).reply .replaced
  | .beginPart identity partNumber reservedBytes now =>
    (Staging.beginPart quotas env s identity partNumber reservedBytes now).reply .pending
  | .commitPart identity pending part =>
    (Staging.commitPart env s identity pending part).reply .parts
  | .discardPending identity pending =>
    (Staging.discardPending env s identity pending).reply fun _ => .done
  | .cleanupCandidates now limit => (Staging.cleanupCandidates s now limit).reply .candidates
  | .confirmArtifactDeleted artifactKey =>
    (Staging.confirmArtifactDeleted env s artifactKey).reply fun _ => .done
  | .knownArtifactKeys => (Staging.knownArtifactKeys s).reply fun keys => .keys keys.toList
  | .listParts identity marker limit =>
    (Staging.listParts s identity marker limit).reply fun listing =>
      .listing listing.1 listing.2
  | .acquireCompletion identity fingerprint parts owner leaseExpiresAtMs now =>
    (Staging.acquireCompletion s identity fingerprint parts owner leaseExpiresAtMs now).reply
      .acquire
  | .renewCompletion identity fencingToken leaseExpiresAtMs =>
    (Staging.renewCompletion env s identity fencingToken leaseExpiresAtMs).reply fun _ => .done
  | .checkCompletionLease identity fencingToken now =>
    (Staging.checkCompletionLease s identity fencingToken now).reply fun _ => .done
  | .completeCompletion identity fencingToken result now =>
    (Staging.completeCompletion s identity fencingToken result now).reply fun _ => .done
  | .abort identity now =>
    let o := Staging.abort s identity now
    ((o.1.mapError fun | .preMutation e => e).map .parts, o.2)
  | .deleteTerminalUpload identity =>
    (Staging.deleteTerminalUpload s identity).reply fun _ => .done
  | .retireTerminalUploads now limit =>
    (Staging.retireTerminalUploads s now limit).reply .retired
  | .reapExpired now limit => (Staging.reapExpired s now limit).reply .parts

/-! ### Histories -/

/-- A call that was made, and its answer. -/
structure Entry where
  call : Call
  answer : Except StagingError Reply

structure History where
  state : MemoryState
  log : List Entry

/-- The upload id that the entry passed to `create`. -/
def Entry.created? (e : Entry) : Option String :=
  match e.call with
  | .create upload => some upload.identity.uploadId
  | _ => none

/-- The ticket that the entry handed out, with the identity it was begun with. -/
def Entry.begun? (e : Entry) : Option (MultipartIdentity × PendingPart) :=
  match e.call, e.answer with
  | .beginPart identity _ _ _, .ok (.pending pending) => some (identity, pending)
  | _, _ => none

namespace History

/-- The upload ids that were passed to `create`. -/
def created (h : History) : List String := h.log.filterMap Entry.created?

/-- The tickets that were handed out. -/
def begun (h : History) : List (MultipartIdentity × PendingPart) := h.log.filterMap Entry.begun?

/-- The history after one more call. -/
def next (quotas : StagingQuotaLimits) (env : CallEnv) (h : History) (c : Call) : History :=
  ⟨(c.run quotas env h.state).2, ⟨c, (c.run quotas env h.state).1⟩ :: h.log⟩

/-- The repository starts empty. -/
def new : History := ⟨.new, []⟩

def Init (h : History) : Prop := h = .new

end History

/-- Two states that differ in the iteration order of their maps only. -/
structure SameContents (s s' : MemoryState) : Prop where
  uploads : s.uploads.SameEntries s'.uploads
  parts : s.parts.SameEntries s'.parts
  attempts : s.attempts.SameEntries s'.attempts
  pending : s.pending.SameEntries s'.pending

inductive Event where
  | call (env : CallEnv) (c : Call)
  | rehash

/-- The steps of the repository. -/
inductive Step (quotas : StagingQuotaLimits) : History → Event → History → Prop where
  | call {h : History} (env : CallEnv) (c : Call) :
    Step quotas h (.call env c) (h.next quotas env c)
  | rehash {h : History} {s : MemoryState} (hs : SameContents h.state s) :
      Step quotas h .rehash ⟨s, h.log⟩

/-- The upload that is passed to `create`. -/
def Event.creates? : Event → Option MultipartUpload
  | .call _ (.create upload) => some upload
  | _ => none

/-- An upload id is passed to `create` at most once. -/
def FreshUploads (h : History) (e : Event) : Prop :=
  ∀ upload ∈ e.creates?, upload.identity.uploadId ∉ h.created

instance (h : History) (e : Event) : Decidable (FreshUploads h e) :=
  inferInstanceAs (Decidable (∀ upload ∈ e.creates?, upload.identity.uploadId ∉ h.created))

theorem FreshUploads.of_none {h : History} {e : Event} (he : e.creates? = none) :
    FreshUploads h e := by
  intro upload hu
  rw [he] at hu
  cases hu

/-! ### Concrete runs -/

/-- Calls, each with what it takes from its surroundings. -/
abbrev Script : Type := List (CallEnv × Call)

def History.runScript (quotas : StagingQuotaLimits) (h : History) (script : Script) : History :=
  script.foldl (fun h (env, c) => h.next quotas env c) h

/-- Every call of the script meets the condition in the history it finds. -/
def History.meets (quotas : StagingQuotaLimits) (C : History → Event → Prop)
    [∀ h e, Decidable (C h e)] (h : History) (script : Script) : Bool :=
  plays (fun h (env, c) => h.next quotas env c) (fun h (env, c) => C h (.call env c)) h script

theorem History.reach_runScript {quotas : StagingQuotaLimits} {C : History → Event → Prop}
    [∀ h e, Decidable (C h e)] {h : History} {script : Script}
    (r : Reach History.Init (Guarded (Step quotas) C) h) (hm : h.meets quotas C script = true) :
    Reach History.Init (Guarded (Step quotas) C) (h.runScript quotas script) :=
  r.script hm fun _ x _ hx => ⟨_, .call x.1 x.2, of_decide_eq_true hx⟩

/-! ### A sample upload -/

def sampleQuotas : StagingQuotaLimits := ⟨1000, 2000⟩

def sampleIdentity : MultipartIdentity := ⟨"tenant", "policy", "bucket", "key", "upload"⟩

/-- A new upload that may stage 100 bytes and expires at time 1000. -/
def sampleUpload : MultipartUpload where
  identity := sampleIdentity
  namespaceEpoch := none
  snapshot := ⟨100⟩
  lifecycle := .open
  stagedBytes := 0
  reservedBytes := 0
  createdAtMs := 0
  expiresAtMs := 1000
  updatedAtMs := 0
  tombstoneUntilMs := none
  completeRequestFingerprint := none
  completionLeaseOwner := none
  completionLeaseExpiresAtMs := none
  completionFencingToken := 0
  completionResult := none

/-- The ticket of the first attempt at the first part, which reserves 40 bytes. -/
def samplePending : PendingPart := .make sampleIdentity 1 1 40 "a"

/-- The part of that attempt: 30 bytes. -/
def samplePart : MultipartPart where
  uploadId := samplePending.uploadId
  partNumber := 1
  attempt := 1
  artifactKey := samplePending.artifactKey
  etag := "etag"
  checksumSha256 := "checksum"
  sizeBytes := 30
  createdAtMs := 10

/-- The upload is created and its first part committed. -/
def sampleScript : Script :=
  [(⟨0, ""⟩, .create sampleUpload), (⟨5, "a"⟩, .beginPart sampleIdentity 1 40 5),
    (⟨10, ""⟩, .commitPart sampleIdentity samplePending samplePart)]

/-! ### Looking up an upload -/

theorem MemoryState.authorized_eq_some {s : MemoryState} {identity : MultipartIdentity}
    {upload : MultipartUpload} (h : s.authorized identity = some upload) :
    s.uploads.get? identity.uploadId = some upload ∧ upload.identity = identity := by
  rw [authorized, Option.filter_eq_some_iff] at h
  refine ⟨h.1, ?_⟩
  obtain ⟨i, _⟩ := upload
  cases i
  cases identity
  simpa [sameIdentity, and_assoc] using h.2

end S4.Staging
