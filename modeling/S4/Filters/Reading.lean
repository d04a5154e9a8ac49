import S4.Filters.Combined

/-!
# Filters — Reading

What `redactPii` replaces, said as a reading of the text from left to right.  At every position a
token may start: a number, or else an address (`tokenFrom`).  A token that starts where the reading
has come to is read as a whole, any other byte by itself (`Visits`).  The tokens that are read are
the spans that are replaced (`mem_replaced_iff`).
-/

namespace S4.Filters

open Lib Nat
open Records (Bytes)

variable {x : Bytes} {s e pos i : Nat} {kind : PiiKind} {span other : Span}

/-! ### Tokens by their start -/

/-- `Behind`, computed from the word that the span starts in. -/
def isBehind (x : Bytes) (span : Span) : Bool :=
  let s := runStart isWordByte x span.start
  let e := runEnd isWordByte x span.start
  span.stop ≤ e && (slice x (s + 1) span.start).contains atSign && isValidEmail (slice x s e)

def numberFrom (x : Bytes) (pos : Nat) : Option Span :=
  (numberAt anyNumber x pos).filter fun span => span.start = pos && !isBehind x span

def emailFrom (x : Bytes) (pos : Nat) : Option Span :=
  let e := runEnd isWordByte x pos
  if runStart isWordByte x pos = pos ∧ (slice x (pos + 1) (e - 1)).contains atSign ∧
      isValidEmail (slice x pos e) then
    some ⟨pos, e, PiiKind.email.marker⟩
  else none

/-- The token that starts at a position; a number goes before an address. -/
def tokenFrom (x : Bytes) (pos : Nat) : Option Span := (numberFrom x pos).or (emailFrom x pos)

theorem contains_slice {b : UInt8} :
    (slice x s e).contains b = true ↔ ∃ i, s ≤ i ∧ i < e ∧ x[i]? = some b := by
  rw [List.contains_iff_mem, List.mem_iff_getElem?]
  constructor
  · rintro ⟨k, hk⟩
    rw [slice, List.getElem?_drop, List.getElem?_take] at hk
    split at hk
    · next hlt => exact ⟨s + k, le_add_right _ _, hlt, hk⟩
    · cases hk
  · rintro ⟨i, hs, he, hi⟩
    refine ⟨i - s, ?_⟩
    rw [slice, List.getElem?_drop, List.getElem?_take, add_sub_of_le hs, if_pos he, hi]

theorem isBehind_iff (h : IsTrimmed isTokenByte isAsciiDigit x span.start span.stop) :
    isBehind x span = true ↔ Behind x span.start span.stop := by
  have hword : holdsAt isWordByte x span.start = true :=
    holdsAt_mono (fun _ => isWordByte_of_digit) h.first
  obtain ⟨hrun, hs, he⟩ := isRun_at hword
  have hlt := h.lt
  simp only [isBehind, Bool.and_eq_true, decide_eq_true_eq, contains_slice]
  constructor
  · rintro ⟨⟨hle, a, ha, has, hat⟩, hvalid⟩
    exact ⟨_, _, a, ⟨hrun, ⟨a, by omega, by omega, hat⟩, hvalid⟩, hat, by omega, has, hle⟩
  · rintro ⟨s', e', a, hemail, hat, hs', has, hee⟩
    obtain ⟨rfl, rfl⟩ := hemail.run.eq_of_mem hrun (i := span.start) (by omega) (by omega) hs he
    exact ⟨⟨hee, a, by omega, has, hat⟩, hemail.valid⟩

theorem numberFrom_eq_some :
    numberFrom x pos = some span ↔ span.start = pos ∧
      ∃ kind, IsNumber kind x span.start span.stop ∧ span.marker = kind.marker ∧
        ¬ Behind x span.start span.stop := by
  rw [numberFrom, Option.filter_eq_some_iff]
  simp only [Bool.and_eq_true, decide_eq_true_eq, Bool.not_eq_true', numberAt_eq_some]
  constructor
  · rintro ⟨⟨htrim, -, -, -, kind, hkind, hmarker⟩, rfl, hbehind⟩
    refine ⟨rfl, kind, ⟨htrim, hkind⟩, hmarker, fun h => ?_⟩
    rw [(isBehind_iff htrim).mpr h] at hbehind
    cases hbehind
  · rintro ⟨rfl, kind, hnumber, hmarker, hbehind⟩
    refine ⟨⟨hnumber.trimmed, le_refl _, hnumber.trimmed.lt, hnumber.trimmed.first, kind,
      hnumber.valid, hmarker⟩, rfl, ?_⟩
    rw [← Bool.not_eq_true]
    exact fun h => hbehind ((isBehind_iff hnumber.trimmed).mp h)

theorem emailFrom_eq_some :
    emailFrom x pos = some span ↔ span.start = pos ∧ IsEmail x span.start span.stop ∧
      span.marker = PiiKind.email.marker := by
  simp only [emailFrom]
  constructor
  · intro h
    split at h
    · next hcond =>
      obtain ⟨hstart, hat, hvalid⟩ := hcond
      cases h
      obtain ⟨a, ha, hae, hat⟩ := contains_slice.mp hat
      have hword : holdsAt isWordByte x pos = true := holdsAt_of_lt_runEnd (le_refl _) (by omega)
      obtain ⟨hrun, -, -⟩ := isRun_at hword
      rw [hstart] at hrun
      exact ⟨rfl, ⟨hrun, ⟨a, by simp only; omega, by simp only; omega, hat⟩, hvalid⟩, rfl⟩
    · cases h
  · rintro ⟨rfl, hemail, hmarker⟩
    have hlt := hemail.run.lt
    obtain ⟨hrun, hs, he⟩ := isRun_at (hemail.run.all span.start (le_refl _) hlt)
    obtain ⟨h₁, h₂⟩ := hemail.run.eq_of_mem hrun (i := span.start) (le_refl _) hlt hs he
    obtain ⟨a, ha, hae, hat⟩ := hemail.inner
    have hvalid := hemail.valid
    rw [h₂] at hvalid
    rw [if_pos ⟨h₁.symm, contains_slice.mpr ⟨a, by omega, by omega, hat⟩, hvalid⟩]
    exact congrArg some (Span.ext rfl h₂.symm hmarker.symm)

theorem tokenFrom_mem_findAllSpans (h : tokenFrom x pos = some span) :
    span.start = pos ∧ span ∈ findAllSpans x := by
  rcases Option.or_eq_some_iff.mp h with hn | ⟨-, he⟩
  · obtain ⟨hstart, hnumber⟩ := numberFrom_eq_some.mp hn
    exact ⟨hstart, mem_findAllSpans_iff.mpr (.inr hnumber)⟩
  · obtain ⟨hstart, hemail⟩ := emailFrom_eq_some.mp he
    exact ⟨hstart, mem_findAllSpans_iff.mpr (.inl hemail)⟩

/-- **The token from a position** is the span with that start which the sorted spans hold. -/
theorem mem_sortSpans_iff :
    span ∈ sortSpans (findAllSpans x) ↔ tokenFrom x span.start = some span := by
  have hsorted : ∀ span, span ∈ sortSpans (findAllSpans x) → tokenFrom x span.start =
    some span := by
    intro span h
    rcases mem_findAllSpans_iff.mp (mem_of_mem_sortSpans h) with ⟨hemail, hmarker⟩ | hnumber
    · -- a number with the same start is shorter, and would stand in its place
      have hnone : numberFrom x span.start = none := by
        rw [Option.eq_none_iff_forall_ne_some]
        intro n hn
        obtain ⟨hstart, kind, hnumber, hrest⟩ := numberFrom_eq_some.mp hn
        have hle := stop_le_of_mem_sortSpans h
          (mem_findAllSpans_iff.mpr (.inr ⟨kind, hnumber, hrest⟩)) hstart
        rw [hstart] at hnumber
        have := hemail.stop_lt_of_start_eq hnumber
        omega
      rw [tokenFrom, hnone, Option.none_or]
      exact emailFrom_eq_some.mpr ⟨rfl, hemail, hmarker⟩
    · rw [tokenFrom, numberFrom_eq_some.mpr ⟨rfl, hnumber⟩, Option.some_or]
  refine ⟨hsorted span, fun h => ?_⟩
  obtain ⟨first, hfirst, hstart, -⟩ := exists_mem_sortSpans (tokenFrom_mem_findAllSpans h).2
  have hfirst' := hsorted first hfirst
  rw [hstart, h] at hfirst'
  exact Option.some.inj hfirst' ▸ hfirst

/-! ### Reading -/

/-- The positions that a reading of the text comes to. -/
inductive Visits (x : Bytes) : Nat → Prop
  | zero : Visits x 0
  | byte {pos : Nat} : Visits x pos → tokenFrom x pos = none → Visits x (pos + 1)
  | token {pos : Nat} {span : Span} : Visits x pos → tokenFrom x pos = some span →
    Visits x span.stop

theorem tokenFrom_of_mem_replaced (h : span ∈ replaced (findAllSpans x)) :
    tokenFrom x span.start = some span := mem_sortSpans_iff.mp (selectSpans_subset 0 _ h)

theorem mem_replaced_of_not_inside (h : tokenFrom x span.start = some span)
    (hout : ∀ other ∈ replaced (findAllSpans x),
      ¬ (other.start < span.start ∧ span.start < other.stop)) :
    span ∈ replaced (findAllSpans x) := by
  rcases mem_selectSpans_or (sortSpans_sorted _) (mem_sortSpans_iff.mpr h) 0 with h₁ | h₂ | h₃
  · exact h₁
  · exact absurd h₂ (not_lt_zero _)
  · obtain ⟨other, hother, hin⟩ := h₃
    exact absurd hin (hout other hother)

/-- The reading does not come to a position inside a span that is replaced. -/
theorem Visits.not_inside (h : Visits x pos) :
    ∀ other ∈ replaced (findAllSpans x), ¬ (other.start < pos ∧ pos < other.stop) := by
  induction h with
  | zero => exact fun _ _ h => absurd h.1 (not_lt_zero _)
  | @byte pos _ hnone ih =>
    rintro other hother ⟨h₁, h₂⟩
    rcases eq_or_lt_of_le (le_of_lt_succ h₁) with heq | hlt
    · have := tokenFrom_of_mem_replaced hother
      rw [heq, hnone] at this
      cases this
    · exact ih other hother ⟨hlt, by omega⟩
  | @token pos span _ hsome ih =>
    obtain ⟨rfl, hmem⟩ := tokenFrom_mem_findAllSpans hsome
    have hspan := mem_replaced_of_not_inside hsome ih
    have hlt := findAllSpans_lt hmem
    rintro other hother ⟨h₁, h₂⟩
    have hne := ih other hother
    by_cases hle : other.start ≤ span.start
    · -- the other span reaches over the start of this one, so it is this one
      obtain rfl := replaced_eq_of_mem hother hspan (i := span.start) hle (by omega) (le_refl _)
        hlt
      omega
    · obtain rfl := replaced_eq_of_mem hother hspan (i := other.start) (le_refl _) (by omega)
        (by omega) h₁
      omega

/-- Every other position is read. -/
theorem visits_of_not_inside (hpos : pos ≤ x.length)
    (hout : ∀ other ∈ replaced (findAllSpans x), ¬ (other.start < pos ∧ pos < other.stop)) :
    Visits x pos := by
  induction pos using Nat.strong_induction_on with
  | _ pos ih =>
    cases pos with
    | zero => exact .zero
    | succ pos =>
      by_cases hin : ∃ other ∈ replaced (findAllSpans x), other.start ≤ pos ∧ pos < other.stop
      · -- the token that holds the position before ends here
        obtain ⟨other, hother, h₁, h₂⟩ := hin
        have hstop : other.stop = pos + 1 := by
          have := hout other hother
          omega
        have hvisit : Visits x other.start := by
          refine ih other.start (by omega) (by omega) fun span hspan hin => ?_
          obtain rfl := replaced_eq_of_mem hspan hother (i := other.start) (by omega) hin.2
            (le_refl _) (by omega)
          omega
        rw [← hstop]
        exact .token hvisit (tokenFrom_of_mem_replaced hother)
      · have hvisit : Visits x pos := ih pos (lt_succ_self _) (by omega)
          fun other hother h => hin ⟨other, hother, by omega, h.2⟩
        cases htoken : tokenFrom x pos with
        | none => exact .byte hvisit htoken
        | some span =>
          obtain ⟨rfl, hmem⟩ := tokenFrom_mem_findAllSpans htoken
          have hspan := mem_replaced_of_not_inside htoken hvisit.not_inside
          exact absurd ⟨span, hspan, le_refl _, findAllSpans_lt hmem⟩ hin

/-- **The spans that are replaced are the tokens that the reading comes to.** -/
theorem mem_replaced_iff :
    span ∈ replaced (findAllSpans x) ↔ Visits x span.start ∧ tokenFrom x span.start =
      some span := by
  constructor
  · intro h
    have hlt := findAllSpans_lt (mem_of_mem_replaced h)
    have hle := findAllSpans_le_length (mem_of_mem_replaced h)
    refine ⟨visits_of_not_inside (by omega) fun other hother hin => ?_, tokenFrom_of_mem_replaced h⟩
    obtain rfl := replaced_eq_of_mem hother h (i := span.start) (by omega) hin.2 (le_refl _)
      hlt
    omega
  · rintro ⟨hvisit, htoken⟩
    exact mem_replaced_of_not_inside htoken hvisit.not_inside

end S4.Filters
