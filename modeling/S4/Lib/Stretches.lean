import S4.Lib.Runs

/-!
# Library — Stretches — runs of a list that is put together

A run, said with the lists around it (`IsStretch`, `isRun_iff_stretch`).  When a list is the
flattening of another, and `p` does not change inside an item, its stretches are the flattenings of
stretches of items (`IsStretch.flatMap`, `IsStretch.of_flatMap`).
-/

namespace Lib

open List

variable {α β : Type} {p : α → Bool} {u w v : List α} {i : Nat} {bs : List β} {b : β}

structure IsStretch (p : α → Bool) (u w v : List α) : Prop where
  ne : w ≠ []
  all : ∀ a ∈ w, p a = true
  left : ∀ a, u.getLast? = some a → p a = false
  right : ∀ a, v.head? = some a → p a = false

theorem holdsAt_getLast {p : α → Bool} {u : List α} {v : List α} (h : i + 1 = u.length) :
    holdsAt p (u ++ v) i = u.getLast?.any p := by
  rw [holdsAt_append_left (by omega), holdsAt, getLast?_eq_getElem?, ← h, Nat.add_sub_cancel]

theorem holdsAt_head (p : α → Bool) (u v : List α) :
    holdsAt p (u ++ v) u.length = v.head?.any p := by
  rw [← Nat.add_zero u.length, holdsAt_append_right, holdsAt, head?_eq_getElem?]

theorem any_eq_false_iff {o : Option α} : o.any p = false ↔ ∀ a, o = some a → p a = false := by
  cases o with
  | none => simp
  | some => simp

/-- A stretch is a run of the whole list. -/
theorem IsStretch.isRun (h : IsStretch p u w v) :
    IsRun p (u ++ w ++ v) u.length (u.length + w.length) where
  lt := Nat.lt_add_of_pos_right (length_pos_iff.mpr h.ne)
  all i hi hi' := by
    obtain ⟨k, rfl⟩ := Nat.exists_eq_add_of_le hi
    have hk : k < w.length := Nat.lt_of_add_lt_add_left hi'
    rw [append_assoc, holdsAt_append_right, holdsAt_append_left hk]
    exact holdsAt_eq_true.mpr ⟨w[k], List.getElem?_eq_getElem hk, h.all _ (getElem_mem hk)⟩
  left i hi := by
    rw [append_assoc, holdsAt_getLast hi]
    exact any_eq_false_iff.mpr h.left
  right := by
    rw [← length_append, holdsAt_head]
    exact any_eq_false_iff.mpr h.right

theorem slice_left (u w v : List α) : slice (u ++ w ++ v) u.length (u.length + w.length) = w := by
  rw [slice, append_assoc, take_length_add_append, take_left, drop_left]

/-- **The runs of a list are its stretches.** -/
theorem isRun_iff_stretch {xs : List α} {s e : Nat} :
    IsRun p xs s e ↔
      ∃ u w v, xs = u ++ w ++ v ∧ s = u.length ∧ e = u.length + w.length ∧ IsStretch p u w v := by
  constructor
  · intro h
    have hle := h.le_length
    have hlt := h.lt
    have hs : (xs.take s).length = s := by rw [length_take]; omega
    have hw : (slice xs s e).length = e - s := length_slice s hle
    have hsplit : xs = xs.take s ++ slice xs s e ++ xs.drop e := by
      have htake : xs.take s = slice xs 0 s := by rw [slice, drop_zero]
      rw [htake, slice_append (Nat.zero_le s) (Nat.le_of_lt hlt), slice, drop_zero,
        take_append_drop]
    refine ⟨_, _, _, hsplit, hs.symm, by omega, ?_, fun a ha => ?_, ?_, ?_⟩
    · exact length_pos_iff.mp (by omega)
    · obtain ⟨k, hk⟩ := mem_iff_getElem?.mp ha
      have hall := holdsAt_slice p xs s e k
      rw [holdsAt, hk, Option.any_some] at hall
      have hlen : k < (slice xs s e).length := (List.getElem?_eq_some_iff.mp hk).1
      rw [hall, h.all (s + k) (by omega) (by omega), Bool.and_true, decide_eq_true_eq]
      omega
    · rw [← any_eq_false_iff]
      cases s with
      | zero => rfl
      | succ s =>
        rw [← holdsAt_getLast hs.symm, ← append_assoc,
          ← hsplit]
        exact h.left s rfl
    · rw [← any_eq_false_iff, ← holdsAt_head p (xs.take s ++ slice xs s e), ← hsplit,
        length_append, hs, hw, Nat.add_sub_of_le (Nat.le_of_lt hlt)]
      exact h.right
  · rintro ⟨u, w, v, rfl, rfl, rfl, h⟩
    exact h.isRun

/-- A list, cut before the items at its end for which `p` holds. -/
theorem exists_left_cut {p : α → Bool} {u : List α} :
    ∃ u' l, u = u' ++ l ∧ (∀ a ∈ l, p a = true) ∧ ∀ a, u'.getLast? = some a → p a = false := by
  induction u using reverseRecOn with
  | nil => exact ⟨[], [], rfl, by simp, by simp⟩
  | append_singleton u a ih =>
    cases ha : p a with
    | false => exact ⟨u ++ [a], [], by simp, by simp, by simp [ha]⟩
    | true =>
      obtain ⟨u', l, rfl, hl, hu'⟩ := ih
      refine ⟨u', l ++ [a], append_assoc u' l [a], fun b hb => ?_, hu'⟩
      rcases mem_append.mp hb with hb | hb
      · exact hl b hb
      · rwa [mem_singleton.mp hb]

theorem exists_right_cut {p : α → Bool} {v : List α} :
    ∃ r v', v = r ++ v' ∧ (∀ a ∈ r, p a = true) ∧ ∀ a, v'.head? = some a → p a = false := by
  induction v with
  | nil => exact ⟨[], [], rfl, by simp, by simp⟩
  | cons a v ih =>
    cases ha : p a with
    | false => exact ⟨[], a :: v, rfl, by simp, by simp [ha]⟩
    | true =>
      obtain ⟨r, v', rfl, hr, hv'⟩ := ih
      refine ⟨a :: r, v', rfl, fun b hb => ?_, hv'⟩
      rcases mem_cons.mp hb with rfl | hb
      · exact ha
      · exact hr b hb

/-- **A block on which `p` holds is part of a stretch.** -/
theorem exists_stretch {n : List α} (u v : List α) (hne : n ≠ []) (hall : ∀ a ∈ n, p a = true) :
    ∃ u' l r v', u = u' ++ l ∧ v = r ++ v' ∧ IsStretch p u' (l ++ n ++ r) v' := by
  obtain ⟨u', l, hu, hl, hu'⟩ := exists_left_cut
  obtain ⟨r, v', hv, hr, hv'⟩ := exists_right_cut
  refine ⟨u', l, r, v', hu, hv, by simp [hne], fun a ha => ?_, hu', hv'⟩
  simp only [mem_append] at ha
  rcases ha with (ha | ha) | ha
  · exact hl a ha
  · exact hall a ha
  · exact hr a ha

/-! ### Trimmed stretches -/

section Trimmed

variable {q : α → Bool} {s e : Nat}

theorem slice_stretch (u : List α) {w : List α} (v : List α) (h : e ≤ w.length) :
    slice (u ++ w ++ v) (u.length + s) (u.length + e) = slice w s e := by
  rw [slice, slice, append_assoc, take_length_add_append, take_append_of_le_length h,
    drop_length_add_append]

theorem holdsAt_stretch (p : α → Bool) (u : List α) {w : List α} (v : List α)
    (h : i < w.length) : holdsAt p (u ++ w ++ v) (u.length + i) = holdsAt p w i := by
  rw [append_assoc, holdsAt_append_right, holdsAt_append_left h]

/-- A stretch by itself is one run. -/
theorem IsStretch.isRun_self (h : IsStretch p u w v) : IsRun p w 0 w.length := by
  have hself : IsStretch p [] w [] := ⟨h.ne, h.all, by simp, by simp⟩
  simpa using hself.isRun

/-- What is trimmed of a list is trimmed of a part on which `p` holds. -/
theorem IsTrimmed.of_block {u w v : List α} (hall : ∀ a ∈ w, p a = true) (he : e ≤ w.length)
    (h : IsTrimmed p q (u ++ w ++ v) (u.length + s) (u.length + e)) : IsTrimmed p q w s e := by
  obtain ⟨⟨l, r, hrun, hl, hr, hin⟩, hlt, hfirst, hlast⟩ := h
  have hblock : IsRun p w 0 w.length := by
    have hself : IsStretch p [] w [] := ⟨length_pos_iff.mp (by omega), hall, by simp, by simp⟩
    simpa using hself.isRun
  obtain ⟨hl', hr'⟩ := hrun.subset (a := u.length) (b := u.length + w.length) (fun i hi hi' => by
    obtain ⟨k, rfl⟩ := Nat.exists_eq_add_of_le hi
    rw [holdsAt_stretch p u v (by omega)]
    exact hblock.all k (Nat.zero_le k) (by omega)) hl (by omega) (by omega) (by omega)
  rw [holdsAt_stretch q u v (by omega)] at hfirst
  rw [Nat.add_sub_assoc (by omega), holdsAt_stretch q u v (by omega)] at hlast
  refine ⟨⟨0, w.length, hblock, by omega, he, fun i _ hi hq => ?_⟩, by omega, hfirst, hlast⟩
  have := hin (u.length + i) (by omega) (by omega) (by rw [holdsAt_stretch q u v hi]; exact hq)
  omega

/-- **What is trimmed of a stretch by itself** is trimmed of it inside the list. -/
theorem IsStretch.isTrimmed_iff (h : IsStretch p u w v) (he : e ≤ w.length) :
    IsTrimmed p q (u ++ w ++ v) (u.length + s) (u.length + e) ↔ IsTrimmed p q w s e := by
  constructor
  · exact IsTrimmed.of_block h.all he
  · rintro ⟨⟨l, r, hrun, hl, hr, hin⟩, hlt, hfirst, hlast⟩
    obtain ⟨rfl, rfl⟩ := h.isRun_self.eq_of_mem hrun (i := s) (by omega) (by omega) hl (by omega)
    refine ⟨⟨u.length, u.length + w.length, h.isRun, by omega, by omega, fun i hi hi' hq => ?_⟩,
      by omega, ?_, ?_⟩
    · obtain ⟨k, rfl⟩ := Nat.exists_eq_add_of_le hi
      rw [holdsAt_stretch q u v (by omega)] at hq
      have := hin k (by omega) (by omega) hq
      omega
    · rw [holdsAt_stretch q u v (by omega)]
      exact hfirst
    · rw [Nat.add_sub_assoc (by omega), holdsAt_stretch q u v (by omega)]
      exact hlast

end Trimmed

/-! ### Flattening -/

section Flatten

variable {f : β → List α} {p' : β → Bool}

/-- Every item is not empty, and `p` says of all its parts what `p'` says of it. -/
def Uniform (f : β → List α) (p : α → Bool) (p' : β → Bool) (bs : List β) : Prop :=
  ∀ b ∈ bs, f b ≠ [] ∧ ∀ a ∈ f b, p a = p' b

/-- An element of the concatenation is in an item. -/
theorem exists_item (h : bs.flatMap f = u ++ a :: v) :
    ∃ cs b ds u' v', bs = cs ++ b :: ds ∧ f b = u' ++ a :: v' ∧ u = cs.flatMap f ++ u' ∧
      v = v' ++ ds.flatMap f := by
  induction bs generalizing u with
  | nil => simp at h
  | cons b bs ih =>
    rw [flatMap_cons] at h
    rcases append_eq_append_iff.mp h with ⟨u', rfl, hrest⟩ | ⟨t, hb, hrest⟩
    · obtain ⟨cs, c, ds, u'', v', rfl, hc, rfl, rfl⟩ := ih hrest
      exact ⟨b :: cs, c, ds, u'', v', rfl, hc, by simp, rfl⟩
    · cases t with
      | nil =>
        obtain ⟨cs, c, ds, u'', v', rfl, hc, hnil, rfl⟩ := ih (u := []) hrest.symm
        refine ⟨b :: cs, c, ds, u'', v', rfl, hc, ?_, rfl⟩
        rw [flatMap_cons, append_assoc, ← hnil, hb, append_nil, append_nil]
      | cons c t =>
        obtain ⟨rfl, rfl⟩ := cons.inj hrest
        exact ⟨[], b, bs, u, t, rfl, hb, rfl, rfl⟩

/-- A cut where `p` changes does not go through an item. -/
theorem exists_split (hf : Uniform f p p' bs) (h : bs.flatMap f = u ++ v)
    (hcut : ∀ a b, u.getLast? = some a → v.head? = some b → p a ≠ p b) :
    ∃ cs ds, bs = cs ++ ds ∧ u = cs.flatMap f ∧ v = ds.flatMap f := by
  induction bs generalizing u with
  | nil =>
    obtain ⟨rfl, rfl⟩ := append_eq_nil_iff.mp h.symm
    exact ⟨[], [], rfl, rfl, rfl⟩
  | cons b bs ih =>
    obtain ⟨hne, hb⟩ := hf b mem_cons_self
    have hf' : Uniform f p p' bs := fun c hc => hf c (mem_cons_of_mem b hc)
    rw [flatMap_cons] at h
    rcases append_eq_append_iff.mp h with ⟨u', rfl, hrest⟩ | ⟨t, hu, rfl⟩
    · -- the cut is behind the item
      cases u' with
      | nil => exact ⟨[b], bs, rfl, by simp, by simpa using hrest.symm⟩
      | cons =>
        obtain ⟨cs, ds, rfl, hcs, hds⟩ := ih hf' hrest fun x y hx hy =>
          hcut x y (by rw [getLast?_append, hx, Option.some_or]) hy
        exact ⟨b :: cs, ds, rfl, by rw [flatMap_cons, hcs], hds⟩
    · by_cases hu' : u = []
      · rw [hu', nil_append] at hu
        exact ⟨[], b :: bs, rfl, hu', by rw [flatMap_cons, hu]⟩
      · by_cases ht : t = []
        · rw [ht, append_nil] at hu
          exact ⟨[b], bs, rfl, by simpa using hu.symm, by rw [ht, nil_append]⟩
        · -- the cut is inside the item, where `p` does not change
          obtain ⟨x, hx⟩ := getLast?_isSome.mpr hu' |> Option.isSome_iff_exists.mp
          obtain ⟨y, t', rfl⟩ := exists_cons_of_ne_nil ht
          have hxb := hb x (by rw [hu]; exact mem_append_left _ (mem_of_getLast? hx))
          have hyb := hb y (by rw [hu]; exact mem_append_right _ mem_cons_self)
          exact absurd (hxb.trans hyb.symm) (hcut x y hx rfl)

theorem getLast?_flatMap (h : bs.getLast? = some b) (hne : f b ≠ []) :
    (bs.flatMap f).getLast? = (f b).getLast? := by
  obtain ⟨cs, rfl⟩ := getLast?_eq_some_iff.mp h
  rw [flatMap_append, flatMap_singleton, getLast?_append]
  obtain ⟨x, hx⟩ := getLast?_isSome.mpr hne |> Option.isSome_iff_exists.mp
  rw [hx, Option.some_or]

theorem head?_flatMap (h : bs.head? = some b) (hne : f b ≠ []) :
    (bs.flatMap f).head? = (f b).head? := by
  obtain ⟨cs, rfl⟩ := head?_eq_some_iff.mp h
  obtain ⟨x, xs, hx⟩ := exists_cons_of_ne_nil hne
  rw [flatMap_cons, hx, cons_append, head?_cons, head?_cons]

/-- **A stretch of items is a stretch of what they flatten to.** -/
theorem IsStretch.flatMap {us ws vs : List β} (hf : Uniform f p p' (us ++ ws ++ vs))
    (h : IsStretch p' us ws vs) : IsStretch p (us.flatMap f) (ws.flatMap f) (vs.flatMap f) := by
  have hus : ∀ b ∈ us, b ∈ us ++ ws ++ vs := by simp +contextual
  have hws : ∀ b ∈ ws, b ∈ us ++ ws ++ vs := by simp +contextual
  have hvs : ∀ b ∈ vs, b ∈ us ++ ws ++ vs := by simp +contextual
  refine ⟨?_, ?_, ?_, ?_⟩
  · obtain ⟨b, bs, rfl⟩ := exists_cons_of_ne_nil h.ne
    rw [flatMap_cons]
    exact append_ne_nil_of_left_ne_nil (hf b (hws b mem_cons_self)).1 _
  · intro a ha
    obtain ⟨b, hb, hab⟩ := mem_flatMap.mp ha
    rw [(hf b (hws b hb)).2 a hab, h.all b hb]
  · intro a ha
    cases hlast : us.getLast? with
    | none =>
      rw [getLast?_eq_none_iff] at hlast
      rw [hlast] at ha
      cases ha
    | some b =>
      have hb := hf b (hus b (mem_of_getLast? hlast))
      rw [getLast?_flatMap hlast hb.1] at ha
      rw [hb.2 a (mem_of_getLast? ha), h.left b hlast]
  · intro a ha
    cases hhead : vs.head? with
    | none =>
      rw [head?_eq_none_iff] at hhead
      rw [hhead] at ha
      cases ha
    | some b =>
      have hb := hf b (hvs b (mem_of_head? hhead))
      rw [head?_flatMap hhead hb.1] at ha
      rw [hb.2 a (mem_of_head? ha), h.right b hhead]

/-- **A stretch of a flattening is one of items.** -/
theorem IsStretch.of_flatMap (hf : Uniform f p p' bs) (hflat : bs.flatMap f = u ++ w ++ v)
    (h : IsStretch p u w v) :
    ∃ us ws vs, bs = us ++ ws ++ vs ∧ u = us.flatMap f ∧ w = ws.flatMap f ∧ v = vs.flatMap f ∧
      IsStretch p' us ws vs := by
  -- `p` changes at both ends, so that the items are cut there
  rw [append_assoc] at hflat
  obtain ⟨us, rest, rfl, hu, hrest⟩ := exists_split hf hflat fun a b ha hb => by
    obtain ⟨x, xs, rfl⟩ := exists_cons_of_ne_nil h.ne
    obtain rfl : x = b := Option.some.inj hb
    rw [h.left a ha, h.all x mem_cons_self]
    decide
  have hfrest : Uniform f p p' rest := fun b hb => hf b (mem_append_right us hb)
  obtain ⟨ws, vs, rfl, hw, hv⟩ := exists_split hfrest hrest.symm fun a b ha hb => by
    rw [h.all a (mem_of_getLast? ha), h.right b hb]
    decide
  refine ⟨us, ws, vs, (append_assoc us ws vs).symm, hu, hw, hv, ?_, ?_, ?_, ?_⟩
  · rintro rfl
    exact h.ne hw
  · intro b hb
    obtain ⟨hne, hall⟩ := hfrest b (mem_append_left vs hb)
    obtain ⟨a, as, heq⟩ := exists_cons_of_ne_nil hne
    have ha : a ∈ f b := by rw [heq]; exact mem_cons_self
    rw [← hall a ha]
    exact h.all a (by rw [hw]; exact mem_flatMap.mpr ⟨b, hb, ha⟩)
  · intro b hb
    obtain ⟨hne, hall⟩ := hf b (mem_append_left _ (mem_of_getLast? hb))
    obtain ⟨a, ha⟩ := getLast?_isSome.mpr hne |> Option.isSome_iff_exists.mp
    rw [← hall a (mem_of_getLast? ha)]
    exact h.left a (by rw [hu, getLast?_flatMap hb hne, ha])
  · intro b hb
    obtain ⟨hne, hall⟩ := hfrest b (mem_append_right ws (mem_of_head? hb))
    obtain ⟨a, as, heq⟩ := exists_cons_of_ne_nil hne
    rw [← hall a (by rw [heq]; exact mem_cons_self)]
    exact h.right a (by rw [hv, head?_flatMap hb hne, heq, head?_cons])

end Flatten

end Lib
