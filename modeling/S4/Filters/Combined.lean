import S4.Filters.Replacement

/-!
# Filters — Combined

The filter for all kinds against the filters for one kind.  It removes what each of them removes
exactly when every number that overlaps an address lies in it, behind its first byte (`Nested`).
Otherwise one of the two overlapping spans is passed over, and bytes of it stay
(`redactPii_removes_iff`).
-/

namespace S4.Filters

open Lib
open Records (Bytes)

variable {x : Bytes} {s e s' e' i : Nat} {kind : PiiKind} {spans : List Span} {span span' : Span}

/-- The byte at `i` lies in a span that is replaced. -/
def Removes (spans : List Span) (i : Nat) : Prop :=
  ∃ span ∈ replaced spans, span.start ≤ i ∧ i < span.stop

/-- Every number that overlaps an address lies in it, behind its first byte. -/
def Nested (x : Bytes) : Prop :=
  ∀ kind s e s' e', IsEmail x s e → IsNumber kind x s' e' → s < e' → s' < e → s < s' ∧ e' ≤ e

/-! ### Addresses and numbers -/

theorem IsNumber.not_atSign (h : IsNumber kind x s e) (hs : s ≤ i) (he : i < e) :
    x[i]? ≠ some atSign := by
  intro hat
  have htoken := h.trimmed.all i hs he
  rw [holdsAt_of_getElem hat, isTokenByte_atSign] at htoken
  cases htoken

theorem IsNumber.eq_of_mem {kind' : PiiKind} (h : IsNumber kind x s e) (h' : IsNumber kind' x s' e')
    (hs : s ≤ i) (he : i < e) (hs' : s' ≤ i) (he' : i < e') : s = s' ∧ e = e' ∧ kind = kind' := by
  obtain ⟨rfl, rfl⟩ := h.trimmed.eq_of_mem h'.trimmed hs he hs' he'
  have hkind := h.valid
  rw [h'.valid] at hkind
  exact ⟨rfl, rfl, (Option.some.inj hkind).symm⟩

/-- A number that begins with an address ends before its `@`. -/
theorem IsEmail.stop_lt_of_start_eq (h : IsEmail x s e) (h' : IsNumber kind x s e') : e' < e := by
  obtain ⟨a, hs, he, hat⟩ := h.inner
  by_contra hge
  exact h'.not_atSign (by omega) (by omega) hat

theorem IsNumber.kind_ne_email (h : IsNumber kind x s e) : kind ≠ .email := by
  rintro rfl
  exact anyNumber_ne_email _ h.valid

/-! ### The filters for one kind -/

/-- Spans that do not overlap are all replaced. -/
theorem mem_replaced_of_apart (hlt : ∀ span ∈ spans, span.start < span.stop)
    (hapart : ∀ a ∈ spans, ∀ b ∈ spans, ∀ i, a.start ≤ i → i < a.stop → b.start ≤ i → i < b.stop →
      a = b) (h : span ∈ spans) : span ∈ replaced spans := by
  have hspan := hlt span h
  rcases mem_replaced_or h with h₁ | ⟨other, hother, hne, hstart, hstop⟩ | ⟨other, hother, h₁, h₂⟩
  · exact h₁
  · have := hlt other hother
    exact absurd (hapart other hother span h span.start (by omega) (by omega) (by omega) hspan) hne
  · have heq := hapart other (mem_of_mem_replaced hother) span h span.start (by omega) h₂ (by omega)
      hspan
    rw [heq] at h₁
    omega

theorem removes_findSpans_email (h : IsEmail x s e) (hs : s ≤ i) (he : i < e) :
    Removes (findSpans x .email) i := by
  refine ⟨⟨s, e, PiiKind.email.marker⟩, mem_replaced_of_apart ?_ ?_
    (mem_findSpans_email.mpr ⟨h, rfl⟩), hs, he⟩
  · intro span hspan
    exact (mem_findSpans_email.mp hspan).1.run.lt
  · intro a ha b hb i h₁ h₂ h₃ h₄
    obtain ⟨hea, hma⟩ := mem_findSpans_email.mp ha
    obtain ⟨heb, hmb⟩ := mem_findSpans_email.mp hb
    obtain ⟨hstart, hstop⟩ := hea.eq_of_mem heb h₁ h₂ h₃ h₄
    exact Span.ext hstart hstop (hma.trans hmb.symm)

theorem removes_findSpans_number (h : IsNumber kind x s e) (hs : s ≤ i) (he : i < e) :
    Removes (findSpans x kind) i := by
  have hkind := h.kind_ne_email
  refine ⟨⟨s, e, kind.marker⟩, mem_replaced_of_apart ?_ ?_
    ((mem_findSpans_number hkind).mpr ⟨h, rfl⟩), hs, he⟩
  · intro span hspan
    exact ((mem_findSpans_number hkind).mp hspan).1.trimmed.lt
  · intro a ha b hb i h₁ h₂ h₃ h₄
    obtain ⟨hna, hma⟩ := (mem_findSpans_number hkind).mp ha
    obtain ⟨hnb, hmb⟩ := (mem_findSpans_number hkind).mp hb
    obtain ⟨hstart, hstop, -⟩ := hna.eq_of_mem hnb h₁ h₂ h₃ h₄
    exact Span.ext hstart hstop (hma.trans hmb.symm)

/-- What a filter for one kind removes lies in an address or number. -/
theorem exists_token_of_removes (h : Removes (findSpans x kind) i) :
    (∃ s e, IsEmail x s e ∧ s ≤ i ∧ i < e) ∨ ∃ s e, IsNumber kind x s e ∧ s ≤ i ∧ i < e := by
  obtain ⟨span, hspan, hs, he⟩ := h
  have hmem := mem_of_mem_replaced hspan
  by_cases hkind : kind = .email
  · rw [hkind] at hmem
    exact .inl ⟨_, _, (mem_findSpans_email.mp hmem).1, hs, he⟩
  · exact .inr ⟨_, _, ((mem_findSpans_number hkind).mp hmem).1, hs, he⟩

/-! ### The filter for all kinds -/

theorem IsEmail.mem_findAllSpans (h : IsEmail x s e) :
    (⟨s, e, PiiKind.email.marker⟩ : Span) ∈ findAllSpans x :=
  mem_findAllSpans_iff.mpr (.inl ⟨h, rfl⟩)

theorem IsNumber.mem_findAllSpans (h : IsNumber kind x s e) (hbehind : ¬ Behind x s e) :
    (⟨s, e, kind.marker⟩ : Span) ∈ findAllSpans x :=
  mem_findAllSpans_iff.mpr (.inr ⟨kind, h, rfl, hbehind⟩)

theorem findAllSpans_lt (h : span ∈ findAllSpans x) : span.start < span.stop := by
  rcases mem_findAllSpans_iff.mp h with ⟨hemail, -⟩ | ⟨kind, hnumber, -⟩
  · exact hemail.run.lt
  · exact hnumber.trimmed.lt

theorem findAllSpans_le_length (h : span ∈ findAllSpans x) : span.stop ≤ x.length := by
  rcases mem_findAllSpans_iff.mp h with ⟨hemail, -⟩ | ⟨kind, hnumber, -⟩
  · exact hemail.run.le_length
  · exact hnumber.trimmed.le_length

/-- Two spans that are replaced and share a position are one. -/
theorem replaced_eq_of_mem (h : span ∈ replaced (findAllSpans x))
    (h' : span' ∈ replaced (findAllSpans x)) (hs : span.start ≤ i) (he : i < span.stop)
    (hs' : span'.start ≤ i) (he' : i < span'.stop) : span = span' := by
  have hapart : (replaced (findAllSpans x)).Pairwise
      fun a b => a.stop ≤ b.start ∨ b.stop ≤ a.start :=
    (replaced_apart fun _ h => findAllSpans_lt h).imp fun h => .inl h
  have : Std.Symm fun a b : Span => a.stop ≤ b.start ∨ b.stop ≤ a.start := ⟨fun _ _ => Or.symm⟩
  by_contra hne
  have := hapart.forall h h' hne
  omega

theorem Nested.email_replaced (hn : Nested x) (h : IsEmail x s e) :
    (⟨s, e, PiiKind.email.marker⟩ : Span) ∈ replaced (findAllSpans x) := by
  have hlt := h.run.lt
  rcases mem_replaced_or h.mem_findAllSpans with
    h₁ | ⟨other, hother, hne, hstart, hstop⟩ | ⟨other, hother, hlt₁, hlt₂⟩
  · exact h₁
  · simp only at hstart hstop
    have hother' := findAllSpans_lt hother
    rcases mem_findAllSpans_iff.mp hother with ⟨hemail, hmarker⟩ | ⟨kind, hnumber, -⟩
    · obtain ⟨h₁, h₂⟩ := hemail.eq_of_mem h (i := s) (by omega) (by omega) (by omega) hlt
      exact absurd (Span.ext h₁ h₂ hmarker) hne
    · have := hn kind s e _ _ h hnumber (by omega) (by omega)
      omega
  · simp only at hlt₁ hlt₂
    rcases mem_findAllSpans_iff.mp (mem_of_mem_replaced hother) with
      ⟨hemail, -⟩ | ⟨kind, hnumber, -⟩
    · have := hemail.eq_of_mem h (i := s) (by omega) hlt₂ (by omega) hlt
      omega
    · have := hn kind s e _ _ h hnumber hlt₂ (by omega)
      omega

/-- A number that overlaps no address is replaced. -/
theorem number_replaced (h : IsNumber kind x s e)
    (hapart : ∀ s' e', IsEmail x s' e' → s' < e → s < e' → False) :
    (⟨s, e, kind.marker⟩ : Span) ∈ replaced (findAllSpans x) := by
  have hlt := h.trimmed.lt
  have hbehind : ¬ Behind x s e := by
    rintro ⟨s', e', a, hemail, -, hs', has, hee⟩
    exact hapart s' e' hemail (by omega) (by omega)
  rcases mem_replaced_or (h.mem_findAllSpans hbehind) with
    h₁ | ⟨other, hother, hne, hstart, hstop⟩ | ⟨other, hother, hlt₁, hlt₂⟩
  · exact h₁
  · simp only at hstart hstop
    have hother' := findAllSpans_lt hother
    rcases mem_findAllSpans_iff.mp hother with ⟨hemail, -⟩ | ⟨kind', hnumber, hmarker, -⟩
    · exact (hapart _ _ hemail (by omega) (by omega)).elim
    · obtain ⟨h₁, h₂, rfl⟩ := hnumber.eq_of_mem h (i := s) (by omega) (by omega) (by omega) hlt
      exact absurd (Span.ext h₁ h₂ hmarker) hne
  · simp only at hlt₁ hlt₂
    rcases mem_findAllSpans_iff.mp (mem_of_mem_replaced hother) with
      ⟨hemail, -⟩ | ⟨kind', hnumber, -⟩
    · exact (hapart _ _ hemail (by omega) (by omega)).elim
    · have := hnumber.eq_of_mem h (i := s) (by omega) hlt₂ (by omega) hlt
      omega

theorem Nested.removes (hn : Nested x) (h : Removes (findSpans x kind) i) :
    Removes (findAllSpans x) i := by
  rcases exists_token_of_removes h with ⟨s, e, hemail, hs, he⟩ | ⟨s, e, hnumber, hs, he⟩
  · exact ⟨_, hn.email_replaced hemail, hs, he⟩
  · by_cases hover : ∃ s' e', IsEmail x s' e' ∧ s' < e ∧ s < e'
    · obtain ⟨s', e', hemail, h₁, h₂⟩ := hover
      have := hn kind s' e' s e hemail hnumber h₁ h₂
      exact ⟨_, hn.email_replaced hemail, by simp only; omega, by simp only; omega⟩
    · refine ⟨_, number_replaced hnumber fun s' e' hemail h₁ h₂ => hover ⟨s', e', hemail, h₁, h₂⟩,
        hs, he⟩

/-- If the `@` of an address is removed, the address is. -/
theorem email_replaced_of_removes (h : IsEmail x s e)
    (hr : ∀ i, s ≤ i → i < e → Removes (findAllSpans x) i) :
    (⟨s, e, PiiKind.email.marker⟩ : Span) ∈ replaced (findAllSpans x) := by
  obtain ⟨a, hs, he, hat⟩ := h.inner
  obtain ⟨span, hspan, hs', he'⟩ := hr a (by omega) (by omega)
  rcases mem_findAllSpans_iff.mp (mem_of_mem_replaced hspan) with
    ⟨hemail, hmarker⟩ | ⟨kind, hnumber, -⟩
  · obtain ⟨h₁, h₂⟩ := hemail.eq_of_mem h hs' he' (by omega) (by omega)
    rwa [Span.ext h₁ h₂ hmarker (y := ⟨s, e, PiiKind.email.marker⟩)] at hspan
  · exact absurd hat (hnumber.not_atSign hs' he')

/-- If a byte of a number that no address can hold is removed, the number is. -/
theorem number_replaced_of_removes (h : IsNumber kind x s e) (hs : s ≤ i) (he : i < e)
    (hword : holdsAt isWordByte x i = false) (hr : Removes (findAllSpans x) i) :
    (⟨s, e, kind.marker⟩ : Span) ∈ replaced (findAllSpans x) := by
  obtain ⟨span, hspan, hs', he'⟩ := hr
  rcases mem_findAllSpans_iff.mp (mem_of_mem_replaced hspan) with
    ⟨hemail, -⟩ | ⟨kind', hnumber, hmarker, -⟩
  · rw [hemail.run.all i hs' he'] at hword
    cases hword
  · obtain ⟨h₁, h₂, rfl⟩ := hnumber.eq_of_mem h hs' he' hs he
    rwa [Span.ext h₁ h₂ hmarker (y := ⟨s, e, kind'.marker⟩)] at hspan

/-- **The filter for all kinds removes what each filter for one kind removes** exactly when numbers
that overlap addresses are nested in them. -/
theorem redactPii_removes_iff (x : Bytes) :
    (∀ kind i, Removes (findSpans x kind) i → Removes (findAllSpans x) i) ↔ Nested x := by
  refine ⟨fun hr kind s e s' e' hemail hnumber h₁ h₂ => ?_, fun hn kind i => hn.removes⟩
  have hE := email_replaced_of_removes hemail fun i hs he =>
    hr .email i (removes_findSpans_email hemail hs he)
  -- the two spans overlap, so the number is not written
  have hlt := hemail.run.lt
  have hlt' := hnumber.trimmed.lt
  have hnot : (⟨s', e', kind.marker⟩ : Span) ∉ replaced (findAllSpans x) := by
    intro hN
    have heq := replaced_eq_of_mem hE hN (i := max s s') (by simp only; omega) (by simp only; omega)
      (by simp only; omega) (by simp only; omega)
    obtain ⟨a, hs, he, hat⟩ := hemail.inner
    have hstart : s = s' := congrArg Span.start heq
    have hstop : e = e' := congrArg Span.stop heq
    exact hnumber.not_atSign (i := a) (by omega) (by omega) hat
  have hout : ∀ i, s' ≤ i → i < e' → holdsAt isWordByte x i = true := by
    intro i hs he
    by_contra hword
    exact hnot (number_replaced_of_removes hnumber hs he (by simpa using hword)
      (hr kind i (removes_findSpans_number hnumber hs he)))
  obtain ⟨hle, hstop⟩ := hemail.run.subset hout (i := max s s') (by omega) (by omega) (by omega)
    (by omega)
  refine ⟨lt_of_le_of_ne hle ?_, hstop⟩
  -- of two spans with one start the shorter is written, which is the number
  rintro rfl
  have hbehind : ¬ Behind x s e' := by
    rintro ⟨s₁, e₁, a, hemail₁, -, hs₁, ha, he₁⟩
    have := hemail₁.eq_of_mem hemail (i := s) (by omega) (by omega) (by omega) hlt
    omega
  have hshort : e ≤ e' := stop_le_of_mem_replaced hE (hnumber.mem_findAllSpans hbehind) rfl
  have := hemail.stop_lt_of_start_eq hnumber
  omega

/-- A card number before an `@`: the filter for addresses removes the `@`, the one for all kinds
does not. -/
theorem card_as_local_part_keeps_domain :
    Removes (findSpans (ascii "4111111111111111@x.y") .email) 16 ∧
    ¬ Removes (findAllSpans (ascii "4111111111111111@x.y")) 16 := by
  simp only [Removes]
  decide +kernel

end S4.Filters
