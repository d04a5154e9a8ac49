import S4.Staging.Completion

/-!
# Staging — Failures

When a call that fails leaves the state as it was.  Most calls check before they change anything.
Three do not: `create` inserts the upload and then finds that its id was taken, `commit_part`
retires the previous part before it looks at the attempt and publishes the part before it settles
the bytes, and `confirm_artifact_deleted` removes the attempt before it looks at its upload.  What
must hold of the state for them to be harmless is `Call.KeepsOnFailure`
(`failed_call_keeps_state_iff`).
-/

namespace S4.Staging

open Lib

variable {α : Type} {s s' : MemoryState} {o : Outcome α} {uploadId : String}

/-- A call that fails leaves the contents of the maps as they were. -/
def FailsClean (s : MemoryState) (o : Outcome α) : Prop := ∀ e, o.1 = .error e → SameContents s o.2

theorem SameContents.refl (s : MemoryState) : SameContents s s :=
  ⟨.refl _, .refl _, .refl _, .refl _⟩

theorem FailsClean.same (r : Except StagingError α) : FailsClean s (r, s) := fun _ _ => .refl s

theorem FailsClean.ok (a : α) : FailsClean s (.ok a, s') := by
  rintro e ⟨⟩

theorem failsClean_error_iff {e : StagingError} :
    FailsClean s ((.error e, s') : Outcome α) ↔ SameContents s s' :=
  ⟨fun h => h e rfl, fun h _ _ => h⟩

theorem failsClean_reply_iff (f : α → Reply) : FailsClean s (o.reply f) ↔ FailsClean s o := by
  obtain ⟨_ | _, s'⟩ := o <;> simp [FailsClean, Outcome.reply, Except.map]

/-! ### The condition -/

/-- The open uploads of a tenant. -/
def MemoryState.activeUploads (s : MemoryState) (tenantId : String) : Nat :=
  (s.uploads.values.filter fun candidate =>
    candidate.identity.tenantId == tenantId && candidate.lifecycle == .open).length

/-- The attempt of the ticket waits for its part, and is not that of the previous part. -/
def MemoryState.Awaits (s : MemoryState) (uploadId : String) (pending : PendingPart) : Prop :=
  ∃ a, s.attempts.get? pending.artifactKey = some a ∧ a.lifecycle = .pending ∧
    a.reservedBytes = pending.reservedBytes ∧
    ∀ old, s.parts.get? (uploadId, pending.partNumber) = some old →
      old.artifactKey ≠ pending.artifactKey

/-- The upload of a deleted attempt is there and has been charged for it. -/
def MemoryState.Charged (s : MemoryState) (a : MemoryAttempt) : Prop :=
  ∃ u, s.uploads.get? a.part.uploadId = some u ∧
    (a.lifecycle = .pending → a.reservedBytes ≤ u.reservedBytes) ∧
    (a.lifecycle ≠ .pending → a.part.sizeBytes ≤ u.stagedBytes)

/-- **What makes a call harmless if it fails.** -/
def Call.KeepsOnFailure (s : MemoryState) : Call → Prop
  | .create upload =>
    maxActiveUploads ≤ s.activeUploads upload.identity.tenantId ∨
      ∀ existing, s.uploads.get? upload.identity.uploadId = some existing → existing = upload
  | .commitPart identity pending part =>
    ∀ upload, pending.covers part = true → s.authorized identity = some upload →
      upload.lifecycle = .open →
      (s.Awaits identity.uploadId pending → pending.reservedBytes ≤ upload.reservedBytes ∧
        upload.stagedBytes + part.sizeBytes ≤ maxWord 64) ∧
      (¬ s.Awaits identity.uploadId pending →
        ∀ old a, s.parts.get? (identity.uploadId, part.partNumber) = some old →
          s.attempts.get? old.artifactKey = some a → a.lifecycle = .retired)
  | .discardPending _ pending =>
    ∀ a, s.attempts.get? pending.artifactKey = some a → s.Charged a
  | .confirmArtifactDeleted artifactKey =>
    ∀ a, s.attempts.get? artifactKey = some a → s.Charged a
  | _ => True

/-! ### The calls -/

theorem create_failsClean_iff {s : MemoryState} {upload : MultipartUpload} :
    FailsClean s (create s upload) ↔ (Call.create upload).KeepsOnFailure s := by
  simp only [create, Call.KeepsOnFailure, MemoryState.activeUploads, ge_iff_le]
  split
  · next hfull => exact iff_of_true (.same _) (.inl hfull)
  · next hfull =>
    cases hget : s.uploads.get? upload.identity.uploadId with
    | none =>
      rw [if_neg (by simp [KeyMap.contains, hget])]
      exact iff_of_true (.ok _) (.inr (by simp))
    | some existing =>
      rw [if_pos (by simp [KeyMap.contains, hget]), failsClean_error_iff]
      constructor
      · intro h
        have := h.uploads.get?_eq upload.identity.uploadId
        rw [hget, KeyMap.get?_insert_self] at this
        exact .inr fun _ hexisting => (Option.some.inj hexisting).symm.trans (Option.some.inj this)
      · intro h
        obtain rfl := h.resolve_left hfull existing rfl
        exact ⟨.insert_self hget, .refl _, .refl _, .refl _⟩

theorem confirmArtifactDeleted_failsClean_iff {env : CallEnv} {s : MemoryState} {key : String} :
    FailsClean s (confirmArtifactDeleted env s key) ↔
      ∀ a, s.attempts.get? key = some a → s.Charged a := by
  rw [confirmArtifactDeleted]
  cases hget : s.attempts.get? key with
  | none => exact iff_of_true (.same _) (by simp)
  | some a =>
    -- the attempt is gone, whatever the upload says
    have hgone : ∀ e, ¬ FailsClean s ((.error e, s.forget key) : Outcome Unit) := by
      intro e h
      have := (failsClean_error_iff.mp h).attempts.get?_eq key
      rw [hget, MemoryState.forget, KeyMap.get?_erase, if_pos rfl] at this
      cases this
    have hiff : FailsClean s ((s.forget key).release env a) ↔ s.Charged a := by
      have huploads : (s.forget key).uploads = s.uploads := rfl
      rw [MemoryState.release, MemoryState.Charged, huploads]
      cases hu : s.uploads.get? a.part.uploadId with
      | none => exact iff_of_false (hgone _) (by simp)
      | some u =>
        by_cases hpending : a.lifecycle = .pending
        · by_cases hle : a.reservedBytes ≤ u.reservedBytes
          · simp only [if_pos hpending, checkedSub_of_le hle]
            exact iff_of_true (.ok _) ⟨u, rfl, fun _ => hle, fun h => absurd hpending h⟩
          · simp only [if_pos hpending, checkedSub, if_neg hle]
            refine iff_of_false (hgone _) ?_
            rintro ⟨u', hu', hle', -⟩
            cases hu'
            exact hle (hle' hpending)
        · by_cases hle : a.part.sizeBytes ≤ u.stagedBytes
          · simp only [if_neg hpending, checkedSub_of_le hle]
            exact iff_of_true (.ok _) ⟨u, rfl, fun h => absurd h hpending, fun _ => hle⟩
          · simp only [if_neg hpending, checkedSub, if_neg hle]
            refine iff_of_false (hgone _) ?_
            rintro ⟨u', hu', -, hle'⟩
            cases hu'
            exact hle (hle' hpending)
    simpa using hiff

/-- Retiring the previous part changes nothing if there is none, or it is retired. -/
theorem sameContents_retire_iff {previous : Option MultipartPart} :
    SameContents s (s.retire previous) ↔
      ∀ old a, previous = some old → s.attempts.get? old.artifactKey = some a →
        a.lifecycle = .retired := by
  cases previous with
  | none => exact iff_of_true (.refl s) (by simp)
  | some old =>
    constructor
    · rintro h _ a ⟨⟩ ha
      have := h.attempts.get?_eq old.artifactKey
      rw [MemoryState.retire, KeyMap.get?_modify, if_pos rfl, ha] at this
      rw [Option.some.inj this]
    · intro h
      refine ⟨.refl _, .refl _, ?_, .refl _⟩
      simp only [MemoryState.retire, KeyMap.modify]
      cases ha : s.attempts.get? old.artifactKey with
      | none => exact .refl _
      | some a =>
        have hretired : ({ a with lifecycle := .retired } : MemoryAttempt) = a := by
          rw [← h old a rfl ha]
        simp only [hretired]
        exact .insert_self ha

/-- After the previous part is retired, the attempt of the ticket waits exactly if it did and is
another one. -/
theorem awaits_iff {pending : PendingPart} :
    s.Awaits uploadId pending ↔
      ∃ a, (s.retire (s.parts.get? (uploadId, pending.partNumber))).attempts.get?
        pending.artifactKey =
        some a ∧ a.lifecycle = .pending ∧ a.reservedBytes = pending.reservedBytes := by
  cases hold : s.parts.get? (uploadId, pending.partNumber) with
  | none => simp [MemoryState.Awaits, MemoryState.retire, hold]
  | some old =>
    simp only [MemoryState.Awaits, MemoryState.retire, hold, KeyMap.get?_modify, Option.some.injEq,
      forall_eq']
    by_cases hkey : old.artifactKey = pending.artifactKey
    · rw [if_pos hkey.symm]
      refine iff_of_false ?_ ?_
      · rintro ⟨a, -, -, -, hne⟩
        exact hne hkey
      rintro ⟨a, ha, hpending, -⟩
      obtain ⟨a', -, rfl⟩ := Option.map_eq_some_iff.mp ha
      cases hpending
    · rw [if_neg (Ne.symm hkey)]
      simp [hkey]

/-- A part that has been published is not what it was. -/
theorem not_sameContents_publish {pending : PendingPart} {part : MultipartPart}
    (hawaits : s.Awaits uploadId pending) (hkey : part.artifactKey = pending.artifactKey)
    (hpublished : s'.attempts =
      ((s.retire (s.parts.get? (uploadId, pending.partNumber))).publish uploadId part).attempts) :
    ¬ SameContents s s' := by
  intro h
  obtain ⟨a', ha', -, -⟩ := awaits_iff.mp hawaits
  obtain ⟨a, ha, hpending, -⟩ := hawaits
  have := h.attempts.get?_eq pending.artifactKey
  rw [ha, hpublished, MemoryState.publish, hkey, KeyMap.get?_modify, if_pos rfl, ha'] at this
  rw [Option.some.inj this] at hpending
  cases hpending

section Commit

variable {env : CallEnv} {identity : MultipartIdentity} {pending : PendingPart}
  {part : MultipartPart} {upload : MultipartUpload}

theorem PendingPart.covers_fields (h : pending.covers part = true) :
    part.partNumber = pending.partNumber ∧ part.artifactKey = pending.artifactKey := by
  simp only [PendingPart.covers, Bool.and_eq_true, beq_iff_eq] at h
  exact ⟨h.1.1.1.2, h.1.2⟩

/-- In an open upload the part is published, if its attempt waits, and the previous one is retired
in any case. -/
theorem commitPart_open {env : CallEnv} (hcovers : pending.covers part = true)
    (hauth : s.authorized identity = some upload) (hopen : upload.lifecycle = .open) :
    (s.Awaits identity.uploadId pending → commitPart env s identity pending part =
      ((s.retire (s.parts.get? (identity.uploadId, pending.partNumber))).publish identity.uploadId
        part).settle env upload identity.uploadId pending part
          (s.parts.get? (identity.uploadId, pending.partNumber))) ∧
    (¬ s.Awaits identity.uploadId pending → commitPart env s identity pending part =
      (.error .notFound, s.retire (s.parts.get? (identity.uploadId, pending.partNumber)))) := by
  simp only [commitPart, hcovers, hauth, hopen, (PendingPart.covers_fields hcovers).1,
    Bool.not_true, Bool.false_eq_true, if_false, ne_eq, not_true_eq_false]
  constructor
  · intro hawaits
    obtain ⟨a, ha, hpending, hreserved⟩ := awaits_iff.mp hawaits
    simp [ha, hpending, hreserved]
  · intro hawaits
    split
    · rfl
    · next a ha =>
      rw [if_pos]
      by_contra hboth
      rw [not_or, not_not, not_not] at hboth
      exact hawaits (awaits_iff.mpr ⟨a, ha, hboth⟩)

/-- A part that has been published is settled, or the state is not what it was. -/
theorem settle_failsClean_iff (hawaits : s.Awaits identity.uploadId pending)
    (hkey : part.artifactKey = pending.artifactKey) :
    FailsClean s (((s.retire (s.parts.get? (identity.uploadId, pending.partNumber))).publish
      identity.uploadId part).settle env upload identity.uploadId pending part
        (s.parts.get? (identity.uploadId, pending.partNumber))) ↔
      pending.reservedBytes ≤ upload.reservedBytes ∧
        upload.stagedBytes + part.sizeBytes ≤ maxWord 64 := by
  rw [MemoryState.settle]
  by_cases hle : pending.reservedBytes ≤ upload.reservedBytes
  · simp only [checkedSub_of_le hle]
    by_cases hword : upload.stagedBytes + part.sizeBytes ≤ maxWord 64
    · simp only [checkedAdd_of_le hword]
      exact iff_of_true (.ok _) ⟨hle, hword⟩
    · simp only [checkedAdd, if_neg hword, failsClean_error_iff]
      exact iff_of_false (not_sameContents_publish hawaits hkey rfl) fun h => hword h.2
  · simp only [checkedSub, if_neg hle, failsClean_error_iff]
    exact iff_of_false (not_sameContents_publish hawaits hkey rfl) fun h => hle h.1

theorem commitPart_failsClean_iff :
    FailsClean s (commitPart env s identity pending part) ↔
      (Call.commitPart identity pending part).KeepsOnFailure s := by
  rw [Call.KeepsOnFailure]
  by_cases hcovers : pending.covers part = true
  swap
  · rw [commitPart, if_pos (by simpa using hcovers)]
    exact iff_of_true (.same _) fun _ h => absurd h hcovers
  cases hauth : s.authorized identity with
  | none =>
    rw [commitPart, if_neg (by simpa using hcovers), hauth]
    exact iff_of_true (.same _) (by simp)
  | some upload =>
    by_cases hopen : upload.lifecycle = .open
    swap
    · simp only [commitPart, hcovers, hauth, if_pos hopen, Bool.not_true, Bool.false_eq_true,
        if_false]
      exact iff_of_true (.same _) fun u _ hu ho => absurd (Option.some.inj hu ▸ ho) hopen
    obtain ⟨hpublish, hretire⟩ := commitPart_open hcovers hauth hopen
    have hpart := PendingPart.covers_fields hcovers
    by_cases hawaits : s.Awaits identity.uploadId pending
    · rw [hpublish hawaits, settle_failsClean_iff hawaits hpart.2]
      simp [hcovers, hopen, hawaits]
    · rw [hretire hawaits, failsClean_error_iff, sameContents_retire_iff, hpart.1]
      simp [hcovers, hopen, hawaits]

end Commit

/-- **When a failed call has no effect.**  In every state, a call that fails leaves the uploads,
parts, attempts and pending parts as they were exactly if the state keeps it harmless. -/
theorem failed_call_keeps_state_iff (quotas : StagingQuotaLimits) (env : CallEnv) (s : MemoryState)
    (c : Call) :
    (∀ e, (c.run quotas env s).1 = .error e → SameContents s (c.run quotas env s).2) ↔
      c.KeepsOnFailure s := by
  change FailsClean s (c.run quotas env s) ↔ _
  cases c with
  | create => exact (failsClean_reply_iff _).trans create_failsClean_iff
  | commitPart =>
    exact (failsClean_reply_iff _).trans commitPart_failsClean_iff
  | discardPending | confirmArtifactDeleted =>
    exact (failsClean_reply_iff _).trans confirmArtifactDeleted_failsClean_iff
  | _ =>
    -- the others check first
    refine iff_of_true ?_ trivial
    simp only [Call.run, failsClean_reply_iff, beginPart, replacePart, acquireCompletion,
      renewCompletion,
      completeCompletion, abort, deleteTerminalUpload, getAuthorized, listParts,
        checkCompletionLease,
      cleanupCandidates, knownArtifactKeys, retireTerminalUploads, reapExpired]
    repeat' split
    all_goals first | exact .same _ | exact .ok _

/-! ### A part that is committed twice -/

/-- The second commit fails, and retires the part that the first one published. -/
theorem second_commit_retires_part :
    ∃ h, Reach History.Init (Step sampleQuotas) h ∧
      (commitPart ⟨20, ""⟩ h.state sampleIdentity samplePending samplePart).1 = .error .notFound ∧
      h.state.attempts.get? samplePending.artifactKey = some ⟨samplePart, 0, .current⟩ ∧
      (commitPart ⟨20, ""⟩ h.state sampleIdentity samplePending samplePart).2.attempts.get?
        samplePending.artifactKey = some ⟨samplePart, 0, .retired⟩ := by
  have hmeets : History.new.meets sampleQuotas (fun _ _ => True) sampleScript = true := by
    decide +kernel
  refine ⟨_, (History.reach_runScript (.init rfl) hmeets).of_guarded, ?_⟩
  decide +kernel

end S4.Staging
