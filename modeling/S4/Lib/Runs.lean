import Mathlib

/-!
# Library — Runs — maximal stretches of a list

A run of `p` is a stretch of positions at which `p` holds and which cannot be made longer (`IsRun`).
Two runs that share a position are one (`IsRun.eq_of_mem`).  Growing to both sides from a position
finds the run that it is on (`runStart`, `runEnd`, `isRun_grow`).

A run may be cut to the positions between the first and the last at which `q` holds (`IsTrimmed`).
-/

namespace Lib

open Nat

open List

variable {α : Type} {p q : α → Bool} {xs : List α} {s e s' e' i : Nat}

/-- Whether `p` holds at a position; it does not behind the end. -/
def holdsAt (p : α → Bool) (xs : List α) (i : Nat) : Bool := (xs[i]?).any p

theorem holdsAt_eq_true : holdsAt p xs i = true ↔ ∃ a, xs[i]? = some a ∧ p a = true := by
  cases h : xs[i]? with
  | none => simp [holdsAt, h]
  | some => simp [holdsAt, h]

theorem lt_length_of_holdsAt (h : holdsAt p xs i = true) : i < xs.length := by
  obtain ⟨a, ha, -⟩ := holdsAt_eq_true.mp h
  exact (List.getElem?_eq_some_iff.mp ha).1

theorem holdsAt_mono (hpq : ∀ a, p a = true → q a = true) (h : holdsAt p xs i = true) :
    holdsAt q xs i = true := by
  obtain ⟨a, ha, hpa⟩ := holdsAt_eq_true.mp h
  exact holdsAt_eq_true.mpr ⟨a, ha, hpq a hpa⟩

theorem holdsAt_append_left {ys : List α} (h : i < xs.length) :
    holdsAt p (xs ++ ys) i = holdsAt p xs i := by
  rw [holdsAt, List.getElem?_append_left h, holdsAt]

theorem holdsAt_append_right (p : α → Bool) (xs ys : List α) (i : Nat) :
    holdsAt p (xs ++ ys) (xs.length + i) = holdsAt p ys i := by
  rw [holdsAt, List.getElem?_append_right (Nat.le_add_right _ _), Nat.add_sub_cancel_left, holdsAt]

/-- The positions from `s` to `e`. -/
def slice (xs : List α) (s e : Nat) : List α := (xs.take e).drop s

theorem holdsAt_slice (p : α → Bool) (xs : List α) (s e i : Nat) :
    holdsAt p (slice xs s e) i = (decide (s + i < e) && holdsAt p xs (s + i)) := by
  rw [holdsAt, slice, List.getElem?_drop, List.getElem?_take, holdsAt]
  split
  · next h => simp [h]
  · next h => simp [h]

theorem all_slice (h : ∀ i, s ≤ i → i < e → holdsAt p xs i = true) :
    ∀ a ∈ slice xs s e, p a = true := by
  intro a ha
  obtain ⟨i, hi⟩ := mem_iff_getElem?.mp ha
  have hp : holdsAt p (slice xs s e) i = p a := by rw [holdsAt, hi, Option.any_some]
  have hlt := (List.getElem?_eq_some_iff.mp hi).1
  rw [slice, length_drop, length_take] at hlt
  rw [← hp, holdsAt_slice, h _ (Nat.le_add_right s i) (by omega), Bool.and_true]
  exact decide_eq_true (by omega)

theorem length_slice (s : Nat) (h : e ≤ xs.length) : (slice xs s e).length = e - s := by
  rw [slice, length_drop, length_take, min_eq_left h]

theorem head?_slice (h : s < e) : (slice xs s e).head? = xs[s]? := by
  rw [slice, head?_drop, List.getElem?_take, if_pos h]

theorem getLast?_slice (hs : s < e) (h : e ≤ xs.length) : (slice xs s e).getLast? = xs[e - 1]? := by
  rw [getLast?_eq_getElem?, length_slice s h, slice, List.getElem?_drop, List.getElem?_take,
    if_pos (by omega)]
  congr 1
  omega

theorem countP_slice_pos (h : holdsAt p xs i = true) (hs : s ≤ i) (he : i < e) :
    0 < (slice xs s e).countP p := by
  obtain ⟨a, ha, hp⟩ := holdsAt_eq_true.mp h
  refine countP_pos_iff.mpr ⟨a, mem_of_getElem? (i := i - s) ?_, hp⟩
  rw [slice, List.getElem?_drop, List.getElem?_take, add_sub_of_le hs, if_pos he, ha]

theorem slice_append {m : Nat} (hs : s ≤ m) (he : m ≤ e) :
    slice xs s m ++ slice xs m e = slice xs s e := by
  have hm : (xs.take e).take m = xs.take m := by rw [take_take, min_eq_left he]
  rw [slice, slice, slice, ← hm, drop_take]
  conv_rhs => rw [← take_append_drop (m - s) ((xs.take e).drop s)]
  rw [drop_drop, add_sub_of_le hs]

theorem take_append_slice (xs : List α) (h : s ≤ e) : xs.take s ++ slice xs s e = xs.take e := by
  have hs : (xs.take e).take s = xs.take s := by rw [take_take, min_eq_left h]
  rw [slice, ← hs, take_append_drop]

theorem slice_append_drop (xs : List α) (h : s ≤ e) : slice xs s e ++ xs.drop e = xs.drop s := by
  rw [slice, drop_take]
  conv_rhs => rw [← take_append_drop (e - s) (xs.drop s)]
  rw [drop_drop, add_sub_of_le h]

theorem cons_drop {a : α} (h : xs[i]? = some a) : a :: xs.drop (i + 1) = xs.drop i := by
  obtain ⟨hi, rfl⟩ := List.getElem?_eq_some_iff.mp h
  exact (drop_eq_getElem_cons hi).symm

theorem slice_cons {a : α} (h : xs[s]? = some a) (he : s < e) :
    slice xs s e = a :: slice xs (s + 1) e := by
  rw [slice, slice, cons_drop]
  rw [List.getElem?_take, if_pos he, h]

/-! ### Runs -/

structure IsRun (p : α → Bool) (xs : List α) (s e : Nat) : Prop where
  lt : s < e
  all : ∀ i, s ≤ i → i < e → holdsAt p xs i = true
  left : ∀ i, i + 1 = s → holdsAt p xs i = false
  right : holdsAt p xs e = false

theorem IsRun.le_length (h : IsRun p xs s e) : e ≤ xs.length := by
  have hlast := lt_length_of_holdsAt (h.all (e - 1) (le_sub_one_of_lt h.lt)
    (sub_one_lt (ne_of_gt (zero_lt_of_lt h.lt))))
  omega

/-- A stretch on which `p` holds and that shares a position with a run is part of it. -/
theorem IsRun.subset (h : IsRun p xs s e) {a b : Nat}
    (hall : ∀ i, a ≤ i → i < b → holdsAt p xs i = true)
    (hs : s ≤ i) (he : i < e) (ha : a ≤ i) (hb : i < b) : s ≤ a ∧ b ≤ e := by
  constructor
  · by_contra hlt
    have hleft := h.left (s - 1) (by omega)
    rw [hall (s - 1) (by omega) (by omega)] at hleft
    cases hleft
  · by_contra hlt
    have hright := h.right
    rw [hall e (by omega) (by omega)] at hright
    cases hright

/-- **Runs that share a position are one.** -/
theorem IsRun.eq_of_mem (h : IsRun p xs s e) (h' : IsRun p xs s' e') (hs : s ≤ i) (he : i < e)
    (hs' : s' ≤ i) (he' : i < e') : s = s' ∧ e = e' := by
  obtain ⟨h₁, h₂⟩ := h.subset h'.all hs he hs' he'
  obtain ⟨h₃, h₄⟩ := h'.subset h.all hs' he' hs he
  omega

/-! ### Growing -/

/-- The position that is reached to the left while `p` holds. -/
def runStart (p : α → Bool) (xs : List α) : Nat → Nat
  | 0 => 0
  | s + 1 => if holdsAt p xs s then runStart p xs s else s + 1

/-- The position that is reached to the right while `p` holds. -/
def runEnd (p : α → Bool) (xs : List α) (e : Nat) : Nat := e + ((xs.drop e).takeWhile p).length

theorem runStart_le (p : α → Bool) (xs : List α) (s : Nat) : runStart p xs s ≤ s := by
  induction s with
  | zero => exact le_refl 0
  | succ s ih =>
    rw [runStart]
    split
    · exact le_succ_of_le ih
    · exact le_refl _

theorem holdsAt_of_runStart_le (h : runStart p xs s ≤ i) (hi : i < s) : holdsAt p xs i = true := by
  induction s with
  | zero => cases hi
  | succ s ih =>
    rw [runStart] at h
    split at h
    · next hs =>
      rcases Nat.lt_succ_iff_lt_or_eq.mp hi with hlt | rfl
      · exact ih h hlt
      · exact hs
    · exact absurd hi (not_lt.mpr h)

theorem not_holdsAt_left_runStart (h : i + 1 = runStart p xs s) : holdsAt p xs i = false := by
  induction s with
  | zero => cases h
  | succ s ih =>
    rw [runStart] at h
    split at h
    · exact ih h
    · next hs =>
      cases h
      simpa using hs

theorem holdsAt_drop (p : α → Bool) (xs : List α) (n i : Nat) :
    holdsAt p (xs.drop n) i = holdsAt p xs (n + i) := by
  rw [holdsAt, List.getElem?_drop, holdsAt]

theorem holdsAt_of_lt_takeWhile (h : i < (xs.takeWhile p).length) : holdsAt p xs i = true := by
  induction xs generalizing i with
  | nil => cases h
  | cons x xs ih =>
    rw [takeWhile_cons] at h
    split at h
    · next hx =>
      cases i with
      | zero => exact hx
      | succ => exact ih (lt_of_succ_lt_succ h)
    · cases h

theorem not_holdsAt_takeWhile (p : α → Bool) (xs : List α) :
    holdsAt p xs (xs.takeWhile p).length = false := by
  induction xs with
  | nil => rfl
  | cons x xs ih =>
    rw [takeWhile_cons]
    split
    · exact ih
    · next hx => simpa [holdsAt] using hx

theorem le_runEnd (p : α → Bool) (xs : List α) (e : Nat) : e ≤ runEnd p xs e := Nat.le_add_right _ _

theorem holdsAt_of_lt_runEnd (h : e ≤ i) (hi : i < runEnd p xs e) : holdsAt p xs i = true := by
  obtain ⟨k, rfl⟩ := Nat.exists_eq_add_of_le h
  rw [← holdsAt_drop]
  exact holdsAt_of_lt_takeWhile (lt_of_add_lt_add_left hi)

theorem not_holdsAt_runEnd (p : α → Bool) (xs : List α) (e : Nat) :
    holdsAt p xs (runEnd p xs e) = false := by
  rw [runEnd, ← holdsAt_drop]
  exact not_holdsAt_takeWhile p _

/-- **Growing to both sides from a position finds its run.**  The growth to the right may start
anywhere on the run. -/
theorem isRun_grow (h : ∀ j, i ≤ j → j < e → holdsAt p xs j = true)
    (hlt : runStart p xs i < runEnd p xs e) : IsRun p xs (runStart p xs i) (runEnd p xs e) where
  lt := hlt
  all j hj hj' := by
    rcases lt_or_ge j i with hlt | hge
    · exact holdsAt_of_runStart_le hj hlt
    · rcases lt_or_ge j e with hlt' | hge'
      · exact h j hge hlt'
      · exact holdsAt_of_lt_runEnd hge' hj'
  left _ hj := not_holdsAt_left_runStart hj
  right := not_holdsAt_runEnd p xs e

theorem isRun_at (h : holdsAt p xs i = true) :
    IsRun p xs (runStart p xs i) (runEnd p xs i) ∧ runStart p xs i ≤ i ∧ i < runEnd p xs i := by
  have hstart := runStart_le p xs i
  have hend : i < runEnd p xs i := by
    rcases eq_or_lt_of_le (le_runEnd p xs i) with heq | hlt
    · have hright := not_holdsAt_runEnd p xs i
      rw [← heq, h] at hright
      cases hright
    · exact hlt
  exact ⟨isRun_grow (fun j hj hj' => absurd hj' (by omega)) (by omega), hstart, hend⟩

/-- No stretch reaches farther to the left. -/
theorem runStart_le_of_all (h : ∀ j, i ≤ j → j < s → holdsAt p xs j = true) :
    runStart p xs s ≤ i := by
  by_contra hlt
  have hle := runStart_le p xs s
  have hleft := not_holdsAt_left_runStart (i := runStart p xs s - 1)
    (show _ = runStart p xs s by omega)
  rw [h _ (by omega) (by omega)] at hleft
  cases hleft

/-- No stretch reaches farther to the right. -/
theorem le_runEnd_of_all (h : ∀ j, e ≤ j → j < i → holdsAt p xs j = true) :
    i ≤ runEnd p xs e := by
  by_contra hlt
  have hright := not_holdsAt_runEnd p xs e
  rw [h _ (le_runEnd p xs e) (by omega)] at hright
  cases hright

/-! ### Trimmed runs -/

/-- A run of `p`, from the first to the last of its positions at which `q` holds. -/
structure IsTrimmed (p q : α → Bool) (xs : List α) (s e : Nat) : Prop where
  run : ∃ l r, IsRun p xs l r ∧ l ≤ s ∧ e ≤ r ∧
    ∀ i, l ≤ i → i < r → holdsAt q xs i = true → s ≤ i ∧ i < e
  lt : s < e
  first : holdsAt q xs s = true
  last : holdsAt q xs (e - 1) = true

theorem IsTrimmed.all (h : IsTrimmed p q xs s e) : ∀ i, s ≤ i → i < e → holdsAt p xs i = true := by
  obtain ⟨l, r, hrun, hl, hr, -⟩ := h.run
  intro i hi hi'
  exact hrun.all i (by omega) (by omega)

theorem IsTrimmed.le_length (h : IsTrimmed p q xs s e) : e ≤ xs.length := by
  obtain ⟨l, r, hrun, hl, hr, -⟩ := h.run
  exact hr.trans hrun.le_length

theorem IsTrimmed.eq_of_mem (h : IsTrimmed p q xs s e) (h' : IsTrimmed p q xs s' e') (hs : s ≤ i)
    (he : i < e) (hs' : s' ≤ i) (he' : i < e') : s = s' ∧ e = e' := by
  obtain ⟨l, r, hrun, hl, hr, hin⟩ := h.run
  obtain ⟨l', r', hrun', hl', hr', hin'⟩ := h'.run
  obtain ⟨rfl, rfl⟩ := hrun.eq_of_mem hrun' (i := i) (by omega) (by omega) (by omega) (by omega)
  have hlt := h.lt
  have hlt' := h'.lt
  have h₁ := hin s' (by omega) (by omega) h'.first
  have h₂ := hin (e' - 1) (by omega) (by omega) h'.last
  have h₃ := hin' s (by omega) (by omega) h.first
  have h₄ := hin' (e - 1) (by omega) (by omega) h.last
  omega

end Lib
