import S4.Filters.Reading

/-!
# Filters — Neighbours

A valid number between two spaces, with any text on both sides.  Its digit token grows into that
text over digits, spaces and dashes.  The number is removed exactly when the growth meets no other
digit (`Alone`), or when all the digits together are a card number to which the reading comes
(`redactPii_covers_iff`).
-/

namespace S4.Filters

open Lib List Nat
open Records (Bytes)

/-! ### Numbers as texts -/

/-- A social security number in the form `NNN-NN-NNNN`. -/
def IsSsnText (t : Bytes) : Prop :=
  t.length = 11 ∧ isValidSsnFormat t = true ∧ isValidSsn (t.filter isAsciiDigit) = true

/-- A card number of 13 to 19 digits. -/
def IsCardText (t : Bytes) : Prop := isValidCard t = true

/-- What the two forms have in common. -/
structure IsNumberText (t : Bytes) : Prop where
  all : ∀ i, i < t.length → holdsAt isTokenByte t i = true
  first : holdsAt isAsciiDigit t 0 = true
  last : holdsAt isAsciiDigit t (t.length - 1) = true
  valid : ∃ kind, anyNumber t = some kind
  count : 9 ≤ t.countP isAsciiDigit

theorem holdsAt_of_all {α : Type} {p : α → Bool} {t : List α} (h : t.all p = true) {i : Nat}
    (hi : i < t.length) : holdsAt p t i = true := by
  refine holdsAt_eq_true.mpr ⟨t[i], getElem?_eq_getElem hi, ?_⟩
  exact all_eq_true.mp h _ (getElem_mem hi)

theorem IsCardText.isNumberText {t : Bytes} (h : IsCardText t) : IsNumberText t := by
  simp only [IsCardText, isValidCard] at h
  split at h
  · cases h
  · next hcond =>
    simp only [not_or, Bool.not_eq_true, Bool.not_eq_false'] at hcond
    obtain ⟨h₁, h₂, hall⟩ := hcond
    have hcount : t.countP isAsciiDigit = t.length :=
      countP_eq_length.mpr (all_eq_true.mp hall)
    have hfilter : t.filter isAsciiDigit = t := filter_eq_self.mpr (all_eq_true.mp hall)
    refine ⟨fun i hi => holdsAt_mono (fun _ => isTokenByte_of_digit) (holdsAt_of_all hall hi),
      holdsAt_of_all hall (by omega), holdsAt_of_all hall (by omega), ⟨.card, ?_⟩, by omega⟩
    rw [anyNumber_eq_card, isCard, hfilter, isValidCard, hcount, if_neg (by simp [hall]; omega), h]
    simp
    omega

theorem holdsAt_of_all_slice {t : Bytes} {s e i : Nat} (h : (slice t s e).all isAsciiDigit = true)
    (hs : s ≤ i) (he : i < e) (hi : i < t.length) : holdsAt isAsciiDigit t i = true := by
  have hlen : i - s < (slice t s e).length := by
    rw [slice, length_drop, length_take]
    omega
  have hat := holdsAt_of_all h hlen
  rw [holdsAt_slice, Bool.and_eq_true, add_sub_of_le hs] at hat
  exact hat.2

theorem IsSsnText.isNumberText {t : Bytes} (h : IsSsnText t) : IsNumberText t := by
  obtain ⟨hlen, hformat, hvalid⟩ := h
  have hparts : t[3]? = some dash ∧ t[6]? = some dash ∧ (slice t 0 3).all isAsciiDigit = true ∧
      (slice t 4 6).all isAsciiDigit = true ∧ (slice t 7 11).all isAsciiDigit = true := by
    have htail : slice t 7 11 = t.drop 7 := by rw [slice, take_of_length_le (by omega)]
    simp only [isValidSsnFormat, hlen, Bool.or_eq_true, Bool.and_eq_true,
      decide_eq_true_eq] at hformat
    rw [htail]
    tauto
  obtain ⟨h₃, h₆, hfirst, hmiddle, hlast⟩ := hparts
  have hcount : t.countP isAsciiDigit = 9 := by
    rw [countP_eq_length_filter]
    simp only [isValidSsn] at hvalid
    split at hvalid
    · cases hvalid
    · next hcond => tauto
  refine ⟨fun i hi => ?_, holdsAt_of_all_slice hfirst (by omega) (by omega) (by omega),
    holdsAt_of_all_slice hlast (by omega) (by omega) (by omega), ⟨.ssn, ?_⟩, by omega⟩
  · by_cases hdash : i = 3 ∨ i = 6
    · rcases hdash with rfl | rfl
      · rw [holdsAt_of_getElem h₃]
        decide
      · rw [holdsAt_of_getElem h₆]
        decide
    · refine holdsAt_mono (fun _ => isTokenByte_of_digit) ?_
      rcases lt_or_ge i 3 with hlt | hge
      · exact holdsAt_of_all_slice hfirst (by omega) hlt hi
      · rcases lt_or_ge i 6 with hlt' | hge'
        · exact holdsAt_of_all_slice hmiddle (by omega) hlt' hi
        · exact holdsAt_of_all_slice hlast (by omega) (by omega) hi
  · rw [anyNumber_eq_ssn, isSsn, hcount, hformat, hvalid]
    rfl

/-! ### Between two spaces -/

section Between

variable {a t b : Bytes} {s e i : Nat} {kind : PiiKind}

/-- `a ++ " " ++ t ++ " " ++ b` -/
def between (a t b : Bytes) : Bytes := a ++ (space :: (t ++ (space :: b)))

/-- The token bytes on both sides, next to the spaces, hold no digit. -/
def Alone (a b : Bytes) : Prop :=
  (∀ i, runStart isTokenByte a a.length ≤ i → holdsAt isAsciiDigit a i = false) ∧
  ∀ i, i < runEnd isTokenByte b 0 → holdsAt isAsciiDigit b i = false

theorem holdsAt_between_left (p : UInt8 → Bool) (h : i < a.length) :
    holdsAt p (between a t b) i = holdsAt p a i := holdsAt_append_left h

theorem holdsAt_between_space (p : UInt8 → Bool) : holdsAt p (between a t b) a.length = p space :=
  holdsAt_append_right p a _ 0

theorem holdsAt_between_text (p : UInt8 → Bool) (h : i < t.length) :
    holdsAt p (between a t b) (a.length + 1 + i) = holdsAt p t i := by
  have hi : a.length + 1 + i = a.length + (i + 1) := by omega
  rw [between, hi, holdsAt_append_right]
  exact holdsAt_append_left h

theorem holdsAt_between_right (p : UInt8 → Bool) (i : Nat) :
    holdsAt p (between a t b) (a.length + 1 + t.length + i) = holdsAt p (space :: b) i := by
  have hi : a.length + 1 + t.length + i = a.length + (t.length + i + 1) := by omega
  rw [between, hi, holdsAt_append_right]
  exact holdsAt_append_right p t _ i

theorem slice_between : slice (between a t b) (a.length + 1) (a.length + 1 + t.length) = t := by
  have hx : between a t b = (a ++ [space]) ++ (t ++ (space :: b)) := by simp [between]
  have hlen : (a ++ [space]).length = a.length + 1 := by simp
  rw [slice, drop_take, hx, ← hlen, drop_left, Nat.add_sub_cancel_left, take_left]

/-- No address has a byte of the text. -/
theorem IsNumberText.not_in_email (ht : IsNumberText t) (h : IsEmail (between a t b) s e)
    (hs : s ≤ i) (he : i < e) (hi : a.length + 1 ≤ i) (hi' : i < a.length + 1 + t.length) :
    False := by
  obtain ⟨k, hk, hk', hat⟩ := h.inner
  have hspace : isWordByte space = false := by decide
  have hleft : a.length < k := by
    by_contra hle
    have hword := h.run.all a.length (by omega) (by omega)
    rw [holdsAt_between_space, hspace] at hword
    cases hword
  have hright : k < a.length + 1 + t.length := by
    by_contra hle
    have hword := h.run.all (a.length + 1 + t.length + 0) (by omega) (by omega)
    rw [holdsAt_between_right] at hword
    exact absurd hword (by simp [holdsAt, hspace])
  obtain ⟨j, rfl⟩ := Nat.exists_eq_add_of_le (show a.length + 1 ≤ k from hleft)
  have htoken := ht.all j (by omega)
  rw [← holdsAt_between_text (a := a) (b := b) _ (by omega), holdsAt_of_getElem hat,
    isTokenByte_atSign] at htoken
  cases htoken

/-- The text and the spaces around it are on one run of token bytes. -/
theorem IsNumberText.all_between (ht : IsNumberText t) (hi : a.length ≤ i)
    (hi' : i < a.length + 1 + t.length + 1) : holdsAt isTokenByte (between a t b) i = true := by
  rcases eq_or_lt_of_le hi with rfl | hlt
  · rw [holdsAt_between_space]
    decide
  · rcases eq_or_lt_of_le (le_of_lt_succ hi') with rfl | hlt'
    · exact holdsAt_between_right isTokenByte 0
    · obtain ⟨j, rfl⟩ := Nat.exists_eq_add_of_le (show a.length + 1 ≤ i from hlt)
      rw [holdsAt_between_text _ (by omega)]
      exact ht.all j (by omega)

/-- A trimmed run that has the first byte of the text has all of it. -/
theorem IsNumberText.subset (ht : IsNumberText t)
    (h : IsTrimmed isTokenByte isAsciiDigit (between a t b) s e) (hs : s ≤ a.length + 1)
    (he : a.length + 1 < e) : a.length + 1 + t.length ≤ e := by
  obtain ⟨l, r, hrun, hl, hr, hin⟩ := h.run
  have hpos := lt_length_of_holdsAt ht.first
  obtain ⟨-, hr'⟩ := hrun.subset (fun i => ht.all_between) (i := a.length + 1) (by omega) (by omega)
    (by omega) (by omega)
  have hdigit := holdsAt_between_text (a := a) (t := t) (b := b) isAsciiDigit (i := t.length - 1)
    (by omega)
  rw [ht.last] at hdigit
  have := hin _ (by omega) (by omega) hdigit
  omega

/-- **A number between spaces, alone, is a number of the whole text.** -/
theorem IsNumberText.isNumber (ht : IsNumberText t) (h : Alone a b) :
    ∃ kind, IsNumber kind (between a t b) (a.length + 1) (a.length + 1 + t.length) := by
  obtain ⟨kind, hkind⟩ := ht.valid
  have hpos := lt_length_of_holdsAt ht.first
  have hfirst := holdsAt_between_text (a := a) (t := t) (b := b) isAsciiDigit (i := 0) (by omega)
  have hlast := holdsAt_between_text (a := a) (t := t) (b := b) isAsciiDigit (i := t.length - 1)
    (by omega)
  obtain ⟨hrun, hl, hr⟩ := isRun_at (ht.all_between (a := a) (b := b) (i := a.length) (le_refl _)
    (by omega))
  obtain ⟨-, hr'⟩ := hrun.subset (fun i => ht.all_between) (i := a.length) (by omega) (by omega)
    (by omega) (by omega)
  refine ⟨kind, ⟨⟨_, _, hrun, by omega, by omega, fun i hi hi' hd => ?_⟩, by omega, ?_, ?_⟩, ?_⟩
  · -- a digit of the run outside the text is one of the token bytes next to it
    by_contra hout
    rcases lt_or_ge i (a.length + 1) with hlt | hge
    · have hne : i ≠ a.length := by
        rintro rfl
        rw [holdsAt_between_space] at hd
        exact absurd hd (by decide)
      have hstart : runStart isTokenByte a a.length ≤ i := by
        refine runStart_le_of_all fun j hj hj' => ?_
        rw [← holdsAt_between_left (t := t) (b := b) _ hj']
        exact hrun.all j (by omega) (by omega)
      rw [holdsAt_between_left _ (by omega), h.1 i hstart] at hd
      cases hd
    · obtain ⟨j, rfl⟩ := Nat.exists_eq_add_of_le (show a.length + 1 + t.length ≤ i by omega)
      rw [holdsAt_between_right] at hd
      cases j with
      | zero => exact absurd (show isAsciiDigit space = true from hd) (by decide)
      | succ j =>
        have hend : j + 1 ≤ runEnd isTokenByte b 0 := by
          refine le_runEnd_of_all fun k _ hk => ?_
          have hrun' := hrun.all (a.length + 1 + t.length + (k + 1)) (by omega) (by omega)
          rwa [holdsAt_between_right] at hrun'
        have hnot : holdsAt isAsciiDigit b j = false := h.2 j (by omega)
        exact absurd (show holdsAt isAsciiDigit b j = true from hd) (by rw [hnot]; decide)
  · rw [hfirst]
    exact ht.first
  · have hidx : a.length + 1 + t.length - 1 = a.length + 1 + (t.length - 1) := by omega
    rw [hidx, hlast]
    exact ht.last
  · rw [slice_between]
    exact hkind

/-- If the number around the text has no other digit, the text is alone. -/
theorem IsNumberText.alone (ht : IsNumberText t)
    (h : IsTrimmed isTokenByte isAsciiDigit (between a t b) (a.length + 1)
      (a.length + 1 + t.length)) : Alone a b := by
  obtain ⟨l, r, hrun, hl, hr, hin⟩ := h.run
  obtain ⟨hl', hr'⟩ := hrun.subset (fun i => ht.all_between) (i := a.length + 1) (by omega)
    (by have := h.lt; omega) (by omega) (by have := h.lt; omega)
  constructor
  · intro i hi
    by_contra hd
    rw [Bool.not_eq_false] at hd
    have hlen := lt_length_of_holdsAt hd
    have hall : ∀ j, i ≤ j → j < a.length + 1 → holdsAt isTokenByte (between a t b) j = true := by
      intro j hj hj'
      rcases eq_or_lt_of_le (le_of_lt_succ hj') with rfl | hlt
      · exact ht.all_between (le_refl _) (by omega)
      · rw [holdsAt_between_left _ hlt]
        exact holdsAt_of_runStart_le (by omega) hlt
    obtain ⟨hleft, -⟩ := hrun.subset hall (i := a.length) (by omega) (by omega) (by omega)
      (by omega)
    rw [← holdsAt_between_left (t := t) (b := b) _ hlen] at hd
    have := hin i hleft (by omega) hd
    omega
  · intro i hi
    by_contra hd
    rw [Bool.not_eq_false] at hd
    have hidx : holdsAt isAsciiDigit (between a t b) (a.length + 1 + t.length + (i + 1)) =
      true := by
      rw [holdsAt_between_right]
      exact hd
    have hall : ∀ j, a.length + 1 + t.length ≤ j → j < a.length + 1 + t.length + (i + 2) →
        holdsAt isTokenByte (between a t b) j = true := by
      intro j hj hj'
      obtain ⟨k, rfl⟩ := Nat.exists_eq_add_of_le hj
      rw [holdsAt_between_right]
      cases k with
      | zero => rfl
      | succ k =>
        show holdsAt isTokenByte b k = true
        exact holdsAt_of_lt_runEnd (zero_le k) (by omega)
    obtain ⟨-, hright⟩ := hrun.subset hall (i := a.length + 1 + t.length) (by omega) (by omega)
      (by omega) (by omega)
    have := hin _ (by omega) (by omega) hidx
    omega

/-- A number that holds the text and has as many digits as a social security number is the text. -/
theorem IsNumberText.eq_of_ssn (ht : IsNumberText t) (h : IsNumber .ssn (between a t b) s e)
    (hs : s ≤ a.length + 1) (he : a.length + 1 + t.length ≤ e) :
    s = a.length + 1 ∧ e = a.length + 1 + t.length := by
  have hcount : (slice (between a t b) s e).countP isAsciiDigit = 9 := by
    have hssn := anyNumber_eq_ssn.mp h.valid
    simp only [isSsn, Bool.and_eq_true, decide_eq_true_eq] at hssn
    exact hssn.1.1
  have hlt := h.trimmed.lt
  have hnine := ht.count
  rw [← slice_append hs (show a.length + 1 ≤ e by omega), countP_append,
    ← slice_append (show a.length + 1 ≤ a.length + 1 + t.length by omega) he, countP_append,
    slice_between] at hcount
  constructor
  · by_contra hne
    have := countP_slice_pos h.trimmed.first (le_refl _) (show s < a.length + 1 by omega)
    omega
  · by_contra hne
    have := countP_slice_pos (s := a.length + 1 + t.length) (e := e) h.trimmed.last (by omega)
      (by omega)
    omega

/-- **Whether a number between two spaces is removed** depends on what stands next to it: it is when
it has no digits beside it, or when all the digits together are a card number that the reading comes
to. -/
theorem redactPii_covers_iff (a t b : Bytes) (ht : IsSsnText t ∨ IsCardText t) :
    (∃ span ∈ replaced (findAllSpans (between a t b)),
      span.start ≤ a.length + 1 ∧ a.length + 1 + t.length ≤ span.stop) ↔
    Alone a b ∨ ∃ s e, IsNumber .card (between a t b) s e ∧ s ≤ a.length + 1 ∧ a.length + 1 < e ∧
      Visits (between a t b) s := by
  have ht : IsNumberText t := ht.elim IsSsnText.isNumberText IsCardText.isNumberText
  have hpos := lt_length_of_holdsAt ht.first
  constructor
  · rintro ⟨span, hspan, hs, he⟩
    rcases mem_findAllSpans_iff.mp (mem_of_mem_replaced hspan) with
      ⟨hemail, -⟩ | ⟨kind, hnumber, hmarker, -⟩
    · exact (ht.not_in_email hemail hs (by omega) (le_refl _) (by omega)).elim
    · cases kind with
      | email => exact absurd rfl hnumber.kind_ne_email
      | card =>
        exact .inr ⟨_, _, hnumber, hs, by omega, (mem_replaced_iff.mp hspan).1⟩
      | ssn =>
        obtain ⟨h₁, h₂⟩ := ht.eq_of_ssn hnumber hs he
        have htrim := hnumber.trimmed
        rw [h₁, h₂] at htrim
        exact .inl (ht.alone htrim)
  · rintro (halone | ⟨s, e, hnumber, hs, he, hvisit⟩)
    · obtain ⟨kind, hnumber⟩ := ht.isNumber halone
      refine ⟨_, number_replaced hnumber fun s' e' hemail h₁ h₂ => ?_, le_refl _, le_refl _⟩
      have hlt := hemail.run.lt
      exact ht.not_in_email hemail (i := max s' (a.length + 1)) (by omega) (by omega) (by omega)
        (by omega)
    · have hcover := ht.subset hnumber.trimmed hs he
      have hbehind : ¬ Behind (between a t b) s e := by
        rintro ⟨s', e', k, hemail, -, hs', hk, he'⟩
        exact ht.not_in_email hemail (i := a.length + 1) (by omega) (by omega) (le_refl _)
          (by omega)
      have htoken : tokenFrom (between a t b) s = some ⟨s, e, PiiKind.card.marker⟩ := by
        have hfrom : numberFrom (between a t b) s = some ⟨s, e, PiiKind.card.marker⟩ :=
          numberFrom_eq_some.mpr ⟨rfl, .card, hnumber, rfl, hbehind⟩
        rw [tokenFrom, hfrom, Option.some_or]
      exact ⟨⟨s, e, PiiKind.card.marker⟩, mem_replaced_iff.mpr ⟨hvisit, htoken⟩, hs, hcover⟩

theorem ssn_between_letters :
    Alone (ascii "x") (ascii "y") ∨
      ∃ s e, IsNumber .card (between (ascii "x") (ascii "123-45-6789") (ascii "y")) s e ∧ s ≤ 2 ∧
        2 < e ∧ Visits (between (ascii "x") (ascii "123-45-6789") (ascii "y")) s :=
  (redactPii_covers_iff (ascii "x") (ascii "123-45-6789") (ascii "y")
    (.inl (by simp only [IsSsnText]; decide +kernel))).mp
    ⟨⟨2, 13, PiiKind.ssn.marker⟩, by decide +kernel, by decide +kernel, by decide +kernel⟩

/-- A digit before the space, and a valid social security number stays. -/
theorem digit_beside_ssn_keeps_it :
    IsSsnText (ascii "123-45-6789") ∧
    ¬ ∃ span ∈ replaced (findAllSpans (between (ascii "5") (ascii "123-45-6789") [])),
      span.start ≤ 2 ∧ 13 ≤ span.stop := by
  simp only [IsSsnText]
  decide +kernel

end Between

end S4.Filters
