import S4.Staging.Calls

/-!
# Staging — Cleanup candidates

`cleanup_candidates` offers the artifacts that `reconcile_staged_artifacts` deletes.  It looks at
the lifecycle of the upload first: an upload that is not `Open` has all its artifacts offered,
current parts included.  For an upload that a completion is working on, these are the bytes that the
completion is still reading.
-/

namespace S4.Staging

open Lib

/-- The attempt is the current part of an upload that has not ended. -/
def MemoryState.InUse (s : MemoryState) (a : MemoryAttempt) : Prop :=
  a.lifecycle = .current ∧ ∃ u, s.uploads.get? a.part.uploadId = some u ∧
    (u.lifecycle = .open ∨ u.lifecycle = .completing)

variable {s : MemoryState} {now : Int} {a : MemoryAttempt}

theorem MemoryState.attempt_of_mem_candidates {limit : Nat}
    {c : CleanupCandidate} (h : c ∈ s.candidates now limit) :
    ∃ a, s.attempts.get? c.artifactKey = some a ∧ s.isCandidate now a = true := by
  obtain ⟨e, he, rfl⟩ := List.mem_map.mp (List.mem_of_mem_take h)
  obtain ⟨hmem, hc⟩ := List.mem_filter.mp he
  exact ⟨e.2, KeyMap.mem_toList_iff.mp hmem, hc⟩

/-- A large enough limit offers every candidate. -/
theorem MemoryState.mem_candidates {k : String}
    (ha : s.attempts.get? k = some a) (hc : s.isCandidate now a = true) :
    ⟨a.part.uploadId, k⟩ ∈ s.candidates now s.attempts.size := by
  rw [candidates, List.take_of_length_le]
  · exact List.mem_map.mpr ⟨(k, a), List.mem_filter.mpr ⟨KeyMap.mem_toList_iff.mpr ha, hc⟩, rfl⟩
  · rw [List.length_map]
    exact List.length_filter_le _ _

/-- A current part is offered exactly when its upload is there and not `Open`. -/
theorem MemoryState.isCandidate_current (now : Int) (ha : a.lifecycle = .current) :
    s.isCandidate now a = true ↔
      ∃ u, s.uploads.get? a.part.uploadId = some u ∧ u.lifecycle ≠ .open := by
  rw [isCandidate]
  split
  next hu => simp [hu]
  next u hu => simp [hu, ha]

/-- **Current parts are safe from cleanup exactly when none belongs to a completing upload.** -/
theorem candidates_not_in_use_iff (s : MemoryState) :
    (∀ now limit cs, (cleanupCandidates s now limit).1 = .ok cs → ∀ c ∈ cs, ∀ a,
      s.attempts.get? c.artifactKey = some a → ¬ s.InUse a) ↔
    ∀ k a u, s.attempts.get? k = some a → a.lifecycle = .current →
      s.uploads.get? a.part.uploadId = some u → u.lifecycle ≠ .completing := by
  constructor
  · intro h k a u ha hcur hu hcompleting
    have hc : s.isCandidate 0 a = true :=
      (s.isCandidate_current 0 hcur).mpr ⟨u, hu, by simp [hcompleting]⟩
    exact h 0 s.attempts.size _ rfl _ (s.mem_candidates ha hc) a ha ⟨hcur, u, hu, .inr hcompleting⟩
  · rintro h now limit cs hcs c hc a ha ⟨hcur, u, hu, hlife⟩
    cases hcs
    obtain ⟨a', ha', hcand⟩ := MemoryState.attempt_of_mem_candidates hc
    cases ha.symm.trans ha'
    obtain ⟨u', hu', hopen⟩ := (s.isCandidate_current now hcur).mp hcand
    cases hu.symm.trans hu'
    obtain hlife | hlife := hlife
    · exact hopen hlife
    · exact h _ a u ha hcur hu hlife

/-- One part is committed and a completion is acquired. -/
def completingScript : Script :=
  sampleScript ++
    [(⟨20, ""⟩, .acquireCompletion sampleIdentity "request" [⟨1, "etag", none⟩] "owner" 50 20)]

def completingHistory : History := History.new.runScript sampleQuotas completingScript

/-- While the completion holds its lease, the part that it selected is offered for deletion. -/
theorem completing_part_is_candidate :
    Reach History.Init (Step sampleQuotas) completingHistory ∧
      (cleanupCandidates completingHistory.state 30 256).1 =
        .ok [⟨"upload", samplePart.artifactKey⟩] ∧
      (completingHistory.state.attempts.get? samplePart.artifactKey).map (·.lifecycle) =
        some .current ∧
      (completingHistory.state.uploads.get? "upload").map (·.lifecycle) = some .completing := by
  refine ⟨Reach.of_guarded (C := fun _ _ => True) ?_, by decide +kernel⟩
  exact History.reach_runScript (.init rfl) (by decide +kernel)

end S4.Staging
