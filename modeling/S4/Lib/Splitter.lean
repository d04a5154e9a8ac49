import Mathlib

/-!
# Library — Splitter — records of a stream that arrives in frames

A splitter looks at the front of a buffer: it finds a record there, or needs more, or fails.  When
it needs more it may also drop what no later record can use.  The laws of a `Splitter` say that what
it has decided does not change when more arrives behind it.

`drain` takes records from a buffer until the splitter needs more.  `feed ok` does this frame by
frame and also refuses a rest that is not `ok` at the end of a frame.  Because of the laws the cuts
between the frames do not matter to `drain` (`drain_append`), so that frames are accepted exactly
when the whole stream is and no cut leaves a refused rest (`feed_eq_some_iff`).
-/

namespace Lib

open List Option

variable {α ρ : Type} {p rest : List α} {rs : List ρ} {ok : List α → Bool} {frames : List (List α)}
  {e : List ρ × List α}

/-- What is at the front of a buffer. -/
inductive Split (α ρ : Type) where
  | found (record : ρ) (rest : List α)
  | more (rest : List α)
  | fail

/-- A splitter whose decisions stand when more arrives. -/
structure Splitter (α ρ : Type) where
  next : List α → Split α ρ
  found_append : ∀ {p r rest}, next p = .found r rest → ∀ q, next (p ++ q) = .found r (rest ++ q)
  found_lt : ∀ {p r rest}, next p = .found r rest → rest.length < p.length
  more_append : ∀ {p rest}, next p = .more rest → ∀ q, next (p ++ q) = next (rest ++ q)
  fail_append : ∀ {p}, next p = .fail → ∀ q, next (p ++ q) = .fail

namespace Splitter

variable (S : Splitter α ρ)

/-- The records of a buffer and the rest. -/
def drain (p : List α) : Option (List ρ × List α) :=
  match _h : S.next p with
  | .found r rest => (drain rest).map fun e => (r :: e.1, e.2)
  | .more rest => some ([], rest)
  | .fail => none
termination_by p.length
decreasing_by exact S.found_lt _h

variable {S}

theorem drain_found {r : ρ} (h : S.next p = .found r rest) :
    S.drain p = (S.drain rest).map fun e => (r :: e.1, e.2) := by
  rw [drain]
  split
  · next h' =>
    cases h.symm.trans h'
    rfl
  · next h' => cases h.symm.trans h'
  · next h' => cases h.symm.trans h'

theorem drain_more (h : S.next p = .more rest) : S.drain p = some ([], rest) := by
  rw [drain]
  split
  · next h' => cases h.symm.trans h'
  · next h' =>
    cases h.symm.trans h'
    rfl
  · next h' => cases h.symm.trans h'

theorem drain_fail (h : S.next p = .fail) : S.drain p = none := by
  rw [drain]
  split
  · next h' => cases h.symm.trans h'
  · next h' => cases h.symm.trans h'
  · rfl

/-- Buffers with the same front have the same records. -/
theorem drain_congr {q : List α} (h : S.next p = S.next q) : S.drain p = S.drain q := by
  cases hq : S.next q with
  | found => rw [drain_found (h.trans hq), drain_found hq]
  | more => rw [drain_more (h.trans hq), drain_more hq]
  | fail => rw [drain_fail (h.trans hq), drain_fail hq]

/-- **What arrives later is split behind the rest of what came before.** -/
theorem drain_append (p q : List α) :
    S.drain (p ++ q) =
      (S.drain p).bind fun e => (S.drain (e.2 ++ q)).map fun e' => (e.1 ++ e'.1, e'.2) := by
  induction hn : p.length using Nat.strong_induction_on generalizing p with
  | _ n ih =>
    cases h : S.next p with
    | found r rest =>
      rw [drain_found (S.found_append h q), drain_found h,
        ih rest.length (hn ▸ S.found_lt h) rest rfl]
      cases S.drain rest with
      | none => rfl
      | some => simp [Option.map_map, Function.comp_def]
    | more =>
      rw [drain_congr (S.more_append h q), drain_more h]
      simp
    | fail => rw [drain_fail (S.fail_append h q), drain_fail h, Option.bind_none]

/-- Induction along the records of a buffer. -/
theorem drain_induction {motive : List α → List ρ → List α → Prop}
    (more : ∀ p rest, S.next p = .more rest → motive p [] rest)
    (found : ∀ p r left rs rest, S.next p = .found r left → motive left rs rest →
      motive p (r :: rs) rest) (h : S.drain p = some (rs, rest)) : motive p rs rest := by
  induction hn : p.length using Nat.strong_induction_on generalizing p rs with
  | _ n ih =>
    cases hp : S.next p with
    | found r left =>
      rw [drain_found hp] at h
      obtain ⟨e, he, hr⟩ := map_eq_some_iff.mp h
      cases hr
      exact found p r left e.1 e.2 hp (ih left.length (hn ▸ S.found_lt hp) he rfl)
    | more =>
      rw [drain_more hp] at h
      cases h
      exact more p rest hp
    | fail =>
      rw [drain_fail hp] at h
      cases h

/-- The rest of a buffer is a buffer that needs more. -/
theorem next_rest (h : S.drain p = some (rs, rest)) : S.next rest = .more rest := by
  refine drain_induction (motive := fun _ _ rest => S.next rest = .more rest) ?_ ?_ h
  · intro p rest hp
    have := S.more_append hp []
    rw [append_nil, append_nil, hp] at this
    exact this.symm
  · exact fun _ _ _ _ _ _ ih => ih

/-! ### Frames -/

variable (S) in
/-- Split frame by frame behind `p`, and refuse a rest that is not `ok`. -/
def feed (ok : List α → Bool) : List α → List (List α) → Option (List ρ × List α)
  | p, [] => some ([], p)
  | p, c :: frames => (S.drain (p ++ c)).bind fun e =>
    if ok e.2 then (feed ok e.2 frames).map fun e' => (e.1 ++ e'.1, e'.2) else none

theorem feed_append (ok : List α → Bool) (p : List α) (frames later : List (List α)) :
    S.feed ok p (frames ++ later) = (S.feed ok p frames).bind fun e =>
      (S.feed ok e.2 later).map fun e' => (e.1 ++ e'.1, e'.2) := by
  induction frames generalizing p with
  | nil => simp [feed]
  | cons c frames ih =>
    simp only [cons_append, feed]
    cases S.drain (p ++ c) with
    | none => rfl
    | some e =>
      simp only [Option.bind_some]
      split
      · rw [ih]
        cases S.feed ok e.2 frames with
        | none => rfl
        | some => simp [Option.map_map, Function.comp_def]
      · rfl

/-- Frames in which no record ends are held back. -/
theorem feed_open
    (h : ∀ q, q <+: frames.flatten → S.next (p ++ q) = .more (p ++ q) ∧ ok (p ++ q) = true) :
    S.feed ok p frames = some ([], p ++ frames.flatten) := by
  induction frames generalizing p with
  | nil => simp [feed]
  | cons c frames ih =>
    have hc := h c (prefix_append ..)
    have hrest := ih (p := p ++ c) fun q hq => by
      rw [append_assoc]
      exact h (c ++ q) ((prefix_append_right_inj c).mpr hq)
    rw [feed, drain_more hc.1, bind_some, if_pos hc.2, hrest]
    simp

/-- What is left behind the frames needs more, and is `ok`. -/
theorem feed_rest (hp : S.next p = .more p) (hok : ok p = true) (h : S.feed ok p frames = some e) :
    S.next e.2 = .more e.2 ∧ ok e.2 = true := by
  induction frames generalizing p e with
  | nil =>
    cases h
    exact ⟨hp, hok⟩
  | cons c frames ih =>
    rw [feed] at h
    obtain ⟨e₁, hdrain, h⟩ := bind_eq_some_iff.mp h
    split at h
    · next hok₁ =>
      obtain ⟨e₂, hfeed, rfl⟩ := map_eq_some_iff.mp h
      have hrest := ih (next_rest hdrain) hok₁ hfeed
      exact hrest
    · cases h

variable (S) in
/-- The cut behind `b` leaves a rest that is refused. -/
def Refused (ok : List α → Bool) (b : List α) : Prop :=
  ∃ rs rest, S.drain b = some (rs, rest) ∧ ok rest = false

/-- The rest of a prefix stands for the prefix. -/
theorem refused_append (h : S.drain p = some (rs, rest)) (q : List α) :
    S.Refused ok (p ++ q) ↔ S.Refused ok (rest ++ q) := by
  simp only [Refused, drain_append p q, h, bind_some, map_eq_some_iff]
  constructor
  · rintro ⟨rs', rest', ⟨e, he, heq⟩, hok⟩
    cases heq
    exact ⟨e.1, e.2, he, hok⟩
  · rintro ⟨rs', rest', he, hok⟩
    exact ⟨_, _, ⟨_, he, rfl⟩, hok⟩

/-- **Frames are accepted exactly when the stream is and no cut leaves a refused rest.** -/
theorem feed_eq_some_iff (hp : S.next p = .more p) :
    S.feed ok p frames = some e ↔ S.drain (p ++ frames.flatten) = some e ∧
      ∀ before after, before ++ after = frames → before ≠ [] →
        ¬ S.Refused ok (p ++ before.flatten) := by
  induction frames generalizing p e with
  | nil =>
    simp only [feed, flatten_nil, append_nil, drain_more hp]
    refine ⟨fun h => ⟨h, fun before after hb hne => ?_⟩, fun h => h.1⟩
    exact absurd (append_eq_nil_iff.mp hb).1 hne
  | cons c frames ih =>
    rw [feed, flatten_cons, ← append_assoc, drain_append (p ++ c)]
    cases hc : S.drain (p ++ c) with
    | none => simp
    | some e₁ =>
      have hrest := next_rest hc
      simp only [bind_some]
      by_cases hok : ok e₁.2 = true
      · rw [if_pos hok]
        -- a cut behind the first frame is a cut behind its rest
        have hcuts : (∀ before after, before ++ after = c :: frames → before ≠ [] →
              ¬ S.Refused ok (p ++ before.flatten)) ↔
            ∀ before after, before ++ after = frames → before ≠ [] →
              ¬ S.Refused ok (e₁.2 ++ before.flatten) := by
          constructor
          · intro h before after hb hne
            rw [← refused_append hc, append_assoc]
            exact h (c :: before) after (by rw [cons_append, hb]) (cons_ne_nil _ _)
          · intro h before after hb hne
            obtain ⟨d, before, rfl⟩ := exists_cons_of_ne_nil hne
            rw [cons_append, cons.injEq] at hb
            obtain ⟨rfl, hb⟩ := hb
            rw [flatten_cons, ← append_assoc, refused_append hc]
            by_cases hnil : before = []
            · subst hnil
              rw [flatten_nil, append_nil]
              rintro ⟨rs, rest, hd, hno⟩
              rw [drain_more hrest] at hd
              cases hd
              rw [hok] at hno
              cases hno
            · exact h before after hb hnil
        rw [hcuts]
        simp only [map_eq_some_iff, ih hrest]
        constructor
        · rintro ⟨e', ⟨hd, hb⟩, rfl⟩
          exact ⟨⟨e', hd, rfl⟩, hb⟩
        · rintro ⟨⟨e', hd, rfl⟩, hb⟩
          exact ⟨e', ⟨hd, hb⟩, rfl⟩
      · rw [if_neg hok]
        refine ⟨fun h => (nomatch h), fun h => ?_⟩
        refine absurd ⟨e₁.1, e₁.2, ?_, Bool.of_not_eq_true hok⟩
          (h.2 [c] frames rfl (cons_ne_nil _ _))
        rw [flatten_singleton]
        exact hc

end Splitter

end Lib
