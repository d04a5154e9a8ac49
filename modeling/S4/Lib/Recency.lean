import Mathlib.Data.List.Nodup

/-!
# Library — Recency — keys in the order of their last use

A cache that evicts what was used longest ago keeps its keys in a list: a key that is used goes to
the end (`touch`).  With the log of all uses, oldest first, `UsedBefore uses a b` says that the last
use of `a` was before one of `b`.  A list in the order of the last uses (`ByRecency`) stays one when
a key is touched or removed, and the first of its keys with a property is the least recently used
one (`ByRecency.find?_first`).
-/

namespace Lib

open List

variable {K : Type}

/-- The last use of `a` was before a use of `b`. -/
def UsedBefore (uses : List K) (a b : K) : Prop :=
  ∃ earlier later, uses = earlier ++ a :: later ∧ a ∉ later ∧ b ∈ later

theorem not_usedBefore_self {uses : List K} {a : K} : ¬ UsedBefore uses a a := by
  rintro ⟨-, later, -, hnot, hmem⟩
  exact hnot hmem

/-- A use of another key changes nothing. -/
theorem UsedBefore.append {uses : List K} {a b k : K} (h : UsedBefore uses a b) (hk : a ≠ k) :
    UsedBefore (uses ++ [k]) a b := by
  obtain ⟨earlier, later, rfl, hnot, hmem⟩ := h
  refine ⟨earlier, later ++ [k], by simp, ?_, mem_append_left _ hmem⟩
  simp [hnot, hk]

theorem usedBefore_append {uses : List K} {a k : K} (ha : a ∈ uses) (hk : a ≠ k) :
    UsedBefore (uses ++ [k]) a k := by
  -- The last occurrence of `a` is the first one from the end.
  obtain ⟨later, earlier, hsplit, hnot⟩ :=
    eq_append_cons_of_mem (mem_reverse.mpr ha)
  refine ⟨earlier.reverse, later.reverse ++ [k], ?_, ?_, by simp⟩
  · rw [← reverse_reverse uses, hsplit]
    simp
  · simp [hnot, hk]

variable [DecidableEq K]

/-- The key is used. -/
def touch (order : List K) (k : K) : List K := order.erase k ++ [k]

theorem mem_touch {order : List K} {k a : K} : a ∈ touch order k ↔ a = k ∨ a ∈ order := by
  rw [touch, mem_append, mem_singleton]
  by_cases hk : a = k
  · simp [hk]
  · simp [hk, mem_erase_of_ne hk]

/-- The list is in the order of the last uses. -/
structure ByRecency (uses order : List K) : Prop where
  pairwise : order.Pairwise (UsedBefore uses)
  used : ∀ k ∈ order, k ∈ uses

namespace ByRecency

variable {uses order : List K}

omit [DecidableEq K] in
theorem nil : ByRecency uses [] := ⟨.nil, by simp⟩

omit [DecidableEq K] in
theorem nodup (h : ByRecency uses order) : order.Nodup := by
  refine h.pairwise.imp fun hab => ?_
  rintro rfl
  exact not_usedBefore_self hab

theorem touch (h : ByRecency uses order) (k : K) : ByRecency (uses ++ [k]) (touch order k) := by
  have hne : ∀ a ∈ order.erase k, a ≠ k ∧ a ∈ order := fun a ha => h.nodup.mem_erase_iff.mp ha
  refine ⟨?_, fun a ha => ?_⟩
  · refine pairwise_append.mpr ⟨?_, pairwise_singleton _ _, ?_⟩
    · refine (h.pairwise.sublist erase_sublist).imp_of_mem fun ha _ hab => ?_
      exact hab.append (hne _ ha).1
    · intro a ha b hb
      obtain rfl := mem_singleton.mp hb
      obtain ⟨hak, hmem⟩ := hne a ha
      exact usedBefore_append (h.used a hmem) hak
  · rcases mem_touch.mp ha with rfl | ha
    · simp
    · exact mem_append_left _ (h.used a ha)

theorem erase (h : ByRecency uses order) (k : K) : ByRecency uses (order.erase k) :=
  ⟨h.pairwise.sublist erase_sublist, fun a ha => h.used a (mem_of_mem_erase ha)⟩

omit [DecidableEq K] in
/-- **The first key with a property** is the one that was used longest ago. -/
theorem find?_first (h : ByRecency uses order) {p : K → Bool} {v k : K}
    (hv : order.find? p = some v) (hk : k ∈ order) (hp : p k = true) (hne : k ≠ v) :
    UsedBefore uses v k := by
  obtain ⟨-, before, after, rfl, hbefore⟩ := find?_eq_some_iff_append.mp hv
  have hafter : k ∈ after := by
    rcases mem_append.mp hk with hmem | hmem
    · exact absurd (hbefore k hmem) (by simp [hp])
    · exact (mem_cons.mp hmem).resolve_left hne
  exact (pairwise_cons.mp (pairwise_append.mp h.pairwise).2.1).1 k hafter

end ByRecency

end Lib
