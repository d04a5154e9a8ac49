import S4.Filters.Pii

/-!
# Filters — Tokens

The addresses and numbers of a text, said without a scan.  An address is a whole word, between
boundary bytes, that is valid and has an `@` inside (`IsEmail`); a number is what lies between the
first and the last digit of a run of digits, spaces and dashes (`IsNumber`).

A scan for one kind finds all spans of that kind (`mem_findSpans_email`, `mem_findSpans_number`).
The scan for all kinds finds every address, and the numbers that do not lie in an address behind an
`@` of it (`mem_findAllSpans_iff`): these it has jumped over.
-/

namespace S4.Filters

open Lib List Nat
open Records (Bytes)

variable {x c : Bytes} {s e s' e' i r : Nat} {kind : PiiKind} {span : Span} {b : UInt8}
  {kindOf : Bytes → Option PiiKind} {spanAt : Nat → Option Span} {trace : List (Nat × Span)}

/-! ### Bytes -/

theorem isWordByte_atSign : isWordByte atSign = true := by decide

theorem isTokenByte_of_digit (h : isAsciiDigit b = true) : isTokenByte b = true := by
  rw [isTokenByte, h, Bool.true_or, Bool.true_or]

theorem isTokenByte_atSign : isTokenByte atSign = false := by decide

theorem isWordByte_of_digit (h : isAsciiDigit b = true) : isWordByte b = true := by
  have hall : ∀ b, isAsciiDigit b = true → isWordByte b = true := forall_byte (by decide +kernel)
  exact hall b h

theorem holdsAt_of_getElem {p : UInt8 → Bool} (h : x[i]? = some b) : holdsAt p x i = p b := by
  rw [holdsAt, h, Option.any_some]

/-! ### Addresses -/

/-- A valid word with an `@` that is neither its first nor its last byte. -/
structure IsEmail (x : Bytes) (s e : Nat) : Prop where
  run : IsRun isWordByte x s e
  inner : ∃ i, s < i ∧ i + 1 < e ∧ x[i]? = some atSign
  valid : isValidEmail (slice x s e) = true

theorem IsEmail.eq_of_mem (h : IsEmail x s e) (h' : IsEmail x s' e') (hs : s ≤ i) (he : i < e)
    (hs' : s' ≤ i) (he' : i < e') : s = s' ∧ e = e' := h.run.eq_of_mem h'.run hs he hs' he'

theorem findEmailBoundary_eq_some (hat : x[i]? = some atSign) :
    findEmailBoundary x i = some (s, e) ↔ IsRun isWordByte x s e ∧ s < i ∧ i + 1 < e := by
  have hword : ∀ j, i ≤ j → j < i + 1 → holdsAt isWordByte x j = true := by
    intro j hj hj'
    obtain rfl : j = i := by omega
    rw [holdsAt_of_getElem hat, isWordByte_atSign]
  have hstart := runStart_le isWordByte x i
  have hend := le_runEnd isWordByte x (i + 1)
  have hrun : IsRun isWordByte x (runStart isWordByte x i) (runEnd isWordByte x (i + 1)) :=
    isRun_grow hword (by omega)
  simp only [findEmailBoundary]
  constructor
  · intro h
    split at h
    · next hlt =>
      cases h
      exact ⟨hrun, hlt.1, hlt.2⟩
    · cases h
  · rintro ⟨h, hs, he⟩
    obtain ⟨rfl, rfl⟩ := h.eq_of_mem hrun (i := i) (by omega) (by omega) (by omega) (by omega)
    rw [if_pos ⟨hs, he⟩]

theorem emailAt_eq_some :
    emailAt x i = some span ↔ x[i]? = some atSign ∧ IsEmail x span.start span.stop ∧
      span.start < i ∧ i + 1 < span.stop ∧ span.marker = PiiKind.email.marker := by
  simp only [emailAt]
  constructor
  · intro h
    split at h
    · next hat =>
      cases hb : findEmailBoundary x i with
      | none => simp only [hb] at h; cases h
      | some b =>
        obtain ⟨s, e⟩ := b
        simp only [hb] at h
        split at h
        · next hvalid =>
          cases h
          obtain ⟨hrun, hs, he⟩ := (findEmailBoundary_eq_some hat).mp hb
          exact ⟨hat, ⟨hrun, ⟨i, hs, he, hat⟩, hvalid⟩, hs, he, rfl⟩
        · cases h
    · cases h
  · rintro ⟨hat, hemail, hs, he, hmarker⟩
    have hb := (findEmailBoundary_eq_some hat).mpr ⟨hemail.run, hs, he⟩
    rw [if_pos hat, hb]
    simp only [hemail.valid, if_true, ← hmarker]

/-! ### Numbers -/

/-- A card or social security number, from its first to its last digit. -/
structure IsNumber (kind : PiiKind) (x : Bytes) (s e : Nat) : Prop where
  trimmed : IsTrimmed isTokenByte isAsciiDigit x s e
  valid : anyNumber (slice x s e) = some kind

theorem trimStart_spec {l : Nat} (hlr : l ≤ i) (hir : i < r)
    (hd : holdsAt isAsciiDigit x i = true) :
    l ≤ trimStart x l r ∧ trimStart x l r ≤ i ∧ holdsAt isAsciiDigit x (trimStart x l r) = true ∧
      ∀ j, l ≤ j → j < trimStart x l r → holdsAt isAsciiDigit x j = false := by
  have hbefore : ∀ j, l ≤ j → j < trimStart x l r → holdsAt isAsciiDigit x j = false := by
    intro j hj hj'
    obtain ⟨k, rfl⟩ := Nat.exists_eq_add_of_le hj
    have hk := holdsAt_of_lt_takeWhile (lt_of_add_lt_add_left hj')
    rw [holdsAt_slice, Bool.and_eq_true] at hk
    obtain ⟨b, hb, hnot⟩ := holdsAt_eq_true.mp hk.2
    rw [holdsAt_of_getElem hb]
    simpa using hnot
  have hle : trimStart x l r ≤ i := by
    by_contra hlt
    rw [hbefore i hlr (by omega)] at hd
    cases hd
  refine ⟨le_add_right _ _, hle, ?_, hbefore⟩
  have hstop := not_holdsAt_takeWhile (!isAsciiDigit ·) (slice x l r)
  rw [holdsAt_slice, Bool.and_eq_false_iff] at hstop
  rcases hstop with hout | hdigit
  · have : trimStart x l r < r := by omega
    rw [decide_eq_false_iff_not] at hout
    exact absurd this hout
  · have hlen : trimStart x l r < x.length := lt_of_le_of_lt hle (lt_length_of_holdsAt hd)
    have hget : x[trimStart x l r]? = some x[trimStart x l r] := getElem?_eq_getElem hlen
    have hdigit' : holdsAt (!isAsciiDigit ·) x (trimStart x l r) = false := hdigit
    rw [holdsAt_of_getElem hget] at hdigit' ⊢
    simpa using hdigit'

theorem trimEnd_spec {s : Nat} (hs : s ≤ i) (hir : i < r) (hd : holdsAt isAsciiDigit x i = true) :
    i < trimEnd x s r ∧ trimEnd x s r ≤ r ∧ holdsAt isAsciiDigit x (trimEnd x s r - 1) = true ∧
      ∀ j, trimEnd x s r ≤ j → j < r → holdsAt isAsciiDigit x j = false := by
  induction r with
  | zero => cases hir
  | succ r ih =>
    rw [trimEnd]
    split
    · next h =>
      have hne : i ≠ r := by
        rintro rfl
        rw [hd] at h
        exact absurd h.2 (by decide)
      obtain ⟨h₁, h₂, h₃, h₄⟩ := ih (by omega)
      refine ⟨h₁, by omega, h₃, ?_⟩
      intro j hj hj'
      rcases lt_or_ge j r with hlt | hge
      · exact h₄ j hj hlt
      · obtain rfl : j = r := by omega
        simpa using h.2
    · next h =>
      have hdr : holdsAt isAsciiDigit x r = true := by
        rw [not_and] at h
        simpa using h (by omega)
      exact ⟨hir, le_refl _, hdr, fun j hj hj' => absurd hj' (by omega)⟩

theorem findDigitToken_spec (hd : holdsAt isAsciiDigit x i = true) :
    ∃ l r, findDigitToken x i = some (l, r) ∧ IsRun isTokenByte x l r ∧ l ≤ i ∧ i < r := by
  have htoken : holdsAt isTokenByte x i = true := holdsAt_mono (fun _ => isTokenByte_of_digit) hd
  obtain ⟨hrun, hstart, hend⟩ := isRun_at htoken
  refine ⟨_, _, ?_, hrun, hstart, hend⟩
  have hpos := countP_slice_pos hd hstart hend
  simp only [findDigitToken]
  rw [if_neg (by omega), if_neg (ne_of_gt hpos)]

/-- **The candidate around a digit** is the trimmed run that the digit is on. -/
theorem digitCandidate_eq_some :
    digitCandidate x i = some (s, e) ↔
      IsTrimmed isTokenByte isAsciiDigit x s e ∧ s ≤ i ∧ i < e ∧ holdsAt isAsciiDigit x i =
        true := by
  by_cases hd : holdsAt isAsciiDigit x i = true
  · obtain ⟨l, r, htoken, hrun, hl, hr⟩ := findDigitToken_spec hd
    obtain ⟨hs₁, hs₂, hs₃, hs₄⟩ := trimStart_spec hl hr hd
    obtain ⟨he₁, he₂, he₃, he₄⟩ := trimEnd_spec hs₂ hr hd
    have htrim : IsTrimmed isTokenByte isAsciiDigit x (trimStart x l r)
        (trimEnd x (trimStart x l r) r) := by
      refine ⟨⟨l, r, hrun, hs₁, he₂, fun j hj hj' hdj => ?_⟩, by omega, hs₃, he₃⟩
      by_contra hout
      rcases lt_or_ge j (trimStart x l r) with hlt | hge
      · rw [hs₄ j hj hlt] at hdj
        cases hdj
      · rw [he₄ j (by omega) hj'] at hdj
        cases hdj
    have hcandidate : digitCandidate x i =
        some (trimStart x l r, trimEnd x (trimStart x l r) r) := by
      simp only [digitCandidate, if_pos hd, htoken]
      rw [if_neg (by omega)]
    rw [hcandidate]
    constructor
    · intro h
      cases h
      exact ⟨htrim, hs₂, he₁, hd⟩
    · rintro ⟨h, hs, he, -⟩
      obtain ⟨rfl, rfl⟩ := h.eq_of_mem htrim hs he hs₂ he₁
      rfl
  · simp only [digitCandidate, if_neg hd]
    constructor
    · intro h; cases h
    · rintro ⟨-, -, -, h⟩
      exact absurd h hd

theorem numberAt_eq_some :
    numberAt kindOf x i = some span ↔
      IsTrimmed isTokenByte isAsciiDigit x span.start span.stop ∧ span.start ≤ i ∧ i < span.stop ∧
      holdsAt isAsciiDigit x i = true ∧
      ∃ kind, kindOf (slice x span.start span.stop) = some kind ∧ span.marker = kind.marker := by
  simp only [numberAt]
  constructor
  · intro h
    cases hc : digitCandidate x i with
    | none => simp only [hc] at h; cases h
    | some c =>
      obtain ⟨s, e⟩ := c
      simp only [hc] at h
      obtain ⟨kind, hkind, rfl⟩ := Option.map_eq_some_iff.mp h
      obtain ⟨htrim, hs, he, hd⟩ := digitCandidate_eq_some.mp hc
      exact ⟨htrim, hs, he, hd, kind, hkind, rfl⟩
  · rintro ⟨htrim, hs, he, hd, kind, hkind, hmarker⟩
    rw [digitCandidate_eq_some.mpr ⟨htrim, hs, he, hd⟩]
    simp [hkind, ← hmarker]

/-! ### Scans -/

/-- What a scan has found, with the positions at which it did: it jumps over what it finds, and
looks everywhere else. -/
structure IsTrace (spanAt : Nat → Option Span) (len i : Nat) (trace : List (Nat × Span)) :
    Prop where
  found : ∀ t ∈ trace, i ≤ t.1 ∧ spanAt t.1 = some t.2
  jumps : trace.Pairwise fun t t' => t.2.stop ≤ t'.1
  looks : ∀ j, i ≤ j → j < len → (∀ span, spanAt j = some span → (j, span) ∈ trace) ∨
    ∃ t ∈ trace, t.1 < j ∧ j < t.2.stop

theorem scan_trace (hstop : ∀ k span, spanAt k = some span → k < span.stop) (len rounds i : Nat)
    (h : len ≤ i + rounds) :
    ∃ trace, scan spanAt len rounds i = trace.map Prod.snd ∧ IsTrace spanAt len i trace := by
  induction rounds generalizing i with
  | zero =>
    exact ⟨[], rfl, fun _ ht => absurd ht not_mem_nil, .nil, fun j hj hj' => absurd hj' (by omega)⟩
  | succ rounds ih =>
    rw [scan]
    split
    · cases hspan : spanAt i with
      | none =>
        obtain ⟨trace, heq, htrace⟩ := ih (i + 1) (by omega)
        refine ⟨trace, heq, fun t ht => ⟨by have := (htrace.found t ht).1; omega,
          (htrace.found t ht).2⟩, htrace.jumps, fun j hj hj' => ?_⟩
        rcases eq_or_lt_of_le hj with rfl | hlt
        · exact .inl fun span h' => by rw [hspan] at h'; cases h'
        · exact htrace.looks j hlt hj'
      | some span =>
        have hi := hstop i span hspan
        obtain ⟨trace, heq, htrace⟩ := ih span.stop (by omega)
        refine ⟨(i, span) :: trace, by rw [map_cons, ← heq], ?_, ?_, fun j hj hj' => ?_⟩
        · intro t ht
          rcases mem_cons.mp ht with rfl | ht
          · exact ⟨le_refl i, hspan⟩
          · exact ⟨by have := (htrace.found t ht).1; omega, (htrace.found t ht).2⟩
        · exact pairwise_cons.mpr ⟨fun t ht => (htrace.found t ht).1, htrace.jumps⟩
        · rcases lt_or_ge j span.stop with hlt | hge
          · rcases eq_or_lt_of_le hj with rfl | hlt'
            · refine .inl fun span' h' => ?_
              rw [hspan] at h'
              cases h'
              exact mem_cons_self
            · exact .inr ⟨(i, span), mem_cons_self, hlt', hlt⟩
          · rcases htrace.looks j hge hj' with hall | ⟨t, ht, hlt⟩
            · exact .inl fun span' h' => mem_cons_of_mem _ (hall span' h')
            · exact .inr ⟨t, mem_cons_of_mem _ ht, hlt⟩
    · exact ⟨[], rfl, fun _ ht => absurd ht not_mem_nil, .nil,
        fun j hj hj' => absurd hj' (by omega)⟩

theorem anyNumber_eq_card : anyNumber c = some .card ↔ isCard c = true := by
  simp only [anyNumber]
  split
  · next h => simp [h]
  · next h => simp [h]

theorem anyNumber_eq_ssn : anyNumber c = some .ssn ↔ isSsn c = true := by
  simp only [anyNumber]
  split
  · next h =>
    -- a card has at least thirteen digits, a social security number nine
    simp only [isCard, Bool.and_eq_true, decide_eq_true_eq] at h
    have hne : ¬ c.countP isAsciiDigit = 9 := by omega
    simp [isSsn, hne]
  · simp

theorem anyNumber_ne_email (c : Bytes) : anyNumber c ≠ some .email := by
  simp only [anyNumber]
  split
  · simp
  · simp

theorem number_lt_stop (kindOf : Bytes → Option PiiKind) (h : numberAt kindOf x i = some span) :
    i < span.stop := (numberAt_eq_some.mp h).2.2.1

theorem email_lt_stop (h : emailAt x i = some span) : i < span.stop :=
  lt_of_succ_lt (emailAt_eq_some.mp h).2.2.2.1

/-- **A scan for numbers finds them all.** -/
theorem mem_scan_numberAt :
    span ∈ scan (numberAt kindOf x) x.length x.length 0 ↔
      IsTrimmed isTokenByte isAsciiDigit x span.start span.stop ∧
      ∃ kind, kindOf (slice x span.start span.stop) = some kind ∧ span.marker = kind.marker := by
  obtain ⟨trace, heq, htrace⟩ := scan_trace
    (fun _ _ => number_lt_stop (x := x) kindOf) x.length x.length 0 (by omega)
  rw [heq]
  constructor
  · intro h
    obtain ⟨t, ht, rfl⟩ := mem_map.mp h
    obtain ⟨htrim, -, -, -, hkind⟩ := numberAt_eq_some.mp (htrace.found t ht).2
    exact ⟨htrim, hkind⟩
  · rintro ⟨htrim, hkind⟩
    have hat := numberAt_eq_some.mpr ⟨htrim, le_refl _, htrim.lt, htrim.first, hkind⟩
    rcases htrace.looks span.start (zero_le _) (lt_length_of_holdsAt htrim.first) with
      hall | ⟨t, ht, hlt, hlt'⟩
    · exact mem_map.mpr ⟨_, hall span hat, rfl⟩
    · -- a number found earlier that reaches over the first digit is the same one
      obtain ⟨htrim', hs, -, -, -⟩ := numberAt_eq_some.mp (htrace.found t ht).2
      have := htrim'.eq_of_mem htrim (i := span.start) (by omega) hlt' (le_refl _) htrim.lt
      omega

/-- **A scan for addresses finds them all.** -/
theorem mem_scan_emailAt :
    span ∈ scan (emailAt x) x.length x.length 0 ↔
      IsEmail x span.start span.stop ∧ span.marker = PiiKind.email.marker := by
  obtain ⟨trace, heq, htrace⟩ := scan_trace (fun _ _ => email_lt_stop (x := x)) x.length x.length
    0 (by omega)
  rw [heq]
  constructor
  · intro h
    obtain ⟨t, ht, rfl⟩ := mem_map.mp h
    obtain ⟨-, hemail, -, -, hmarker⟩ := emailAt_eq_some.mp (htrace.found t ht).2
    exact ⟨hemail, hmarker⟩
  · rintro ⟨hemail, hmarker⟩
    obtain ⟨a, hs, he, hat⟩ := hemail.inner
    have hspan := emailAt_eq_some.mpr ⟨hat, hemail, hs, he, hmarker⟩
    rcases htrace.looks a (zero_le _) (by have := hemail.run.le_length; omega) with
      hall | ⟨t, ht, hlt, hlt'⟩
    · exact mem_map.mpr ⟨_, hall span hspan, rfl⟩
    · obtain ⟨-, hemail', hs', -, hmarker'⟩ := emailAt_eq_some.mp (htrace.found t ht).2
      obtain ⟨h₁, h₂⟩ := hemail'.eq_of_mem hemail (i := a) (by omega) hlt' (by omega) (by omega)
      exact mem_map.mpr ⟨t, ht, Span.ext h₁ h₂ (hmarker'.trans hmarker.symm)⟩

theorem mem_findSpans_email :
    span ∈ findSpans x .email ↔
      IsEmail x span.start span.stop ∧ span.marker = PiiKind.email.marker := mem_scan_emailAt

/-- **A scan for one kind of number finds all of that kind.** -/
theorem mem_findSpans_number (hkind : kind ≠ .email) :
    span ∈ findSpans x kind ↔ IsNumber kind x span.start span.stop ∧ span.marker = kind.marker := by
  cases kind with
  | email => exact absurd rfl hkind
  | card =>
    have hscan : findSpans x .card =
      scan (numberAt (fun c => if isCard c then some .card else none) x) x.length x.length 0 := rfl
    rw [hscan, mem_scan_numberAt]
    constructor
    · rintro ⟨htrim, kind, hk, hmarker⟩
      obtain ⟨hcard, rfl⟩ := Option.ite_some_none_eq_some.mp hk
      exact ⟨⟨htrim, anyNumber_eq_card.mpr hcard⟩, hmarker⟩
    · rintro ⟨⟨htrim, hvalid⟩, hmarker⟩
      exact ⟨htrim, .card, by rw [if_pos (anyNumber_eq_card.mp hvalid)], hmarker⟩
  | ssn =>
    have hscan : findSpans x .ssn = scan (numberAt (fun c => if isSsn c then some .ssn else none) x)
        x.length x.length 0 := rfl
    rw [hscan, mem_scan_numberAt]
    constructor
    · rintro ⟨htrim, kind, hk, hmarker⟩
      obtain ⟨hssn, rfl⟩ := Option.ite_some_none_eq_some.mp hk
      exact ⟨⟨htrim, anyNumber_eq_ssn.mpr hssn⟩, hmarker⟩
    · rintro ⟨⟨htrim, hvalid⟩, hmarker⟩
      exact ⟨htrim, .ssn, by rw [if_pos (anyNumber_eq_ssn.mp hvalid)], hmarker⟩

/-! ### The scan for all kinds -/

/-- The stretch lies in an address, behind an `@` at which the scan has found it. -/
def Behind (x : Bytes) (s e : Nat) : Prop :=
  ∃ s' e' a, IsEmail x s' e' ∧ x[a]? = some atSign ∧ s' < a ∧ a < s ∧ e ≤ e'

def anyAt (x : Bytes) (i : Nat) : Option Span := (emailAt x i).or (numberAt anyNumber x i)

theorem anyAt_eq_some :
    anyAt x i = some span ↔ emailAt x i = some span ∨ numberAt anyNumber x i = some span := by
  rw [anyAt]
  cases he : emailAt x i with
  | none => simp
  | some =>
    rw [Option.some_or]
    refine ⟨.inl, ?_⟩
    rintro (h | h)
    · exact h
    · -- there is an `@`, which is no digit
      have hdigit := (numberAt_eq_some.mp h).2.2.2.1
      rw [holdsAt_of_getElem (emailAt_eq_some.mp he).1] at hdigit
      exact absurd hdigit (by decide)

theorem any_lt_stop (h : anyAt x i = some span) : i < span.stop := by
  rcases anyAt_eq_some.mp h with h | h
  · exact email_lt_stop h
  · exact number_lt_stop anyNumber h

theorem findAllSpans_trace {x : Bytes} :
    ∃ trace, findAllSpans x = trace.map Prod.snd ∧ IsTrace (anyAt x) x.length 0 trace :=
  scan_trace (fun _ _ => any_lt_stop (x := x)) x.length x.length 0 (by omega)

theorem IsTrace.stop_le {len : Nat} {t t' : Nat × Span} (h : IsTrace spanAt len i trace)
    (hstop : ∀ k span, spanAt k = some span → k < span.stop) (ht : t ∈ trace) (ht' : t' ∈ trace)
    (hlt : t.1 < t'.1) : t.2.stop ≤ t'.1 := by
  have : Std.Symm fun t t' : Nat × Span => t.2.stop ≤ t'.1 ∨ t'.2.stop ≤ t.1 := ⟨fun _ _ => Or.symm⟩
  have hapart : trace.Pairwise fun t t' => t.2.stop ≤ t'.1 ∨ t'.2.stop ≤ t.1 :=
    h.jumps.imp fun h => .inl h
  have hne : t ≠ t' := fun heq => absurd (congrArg Prod.fst heq) (by omega)
  rcases hapart.forall ht ht' hne with h₁ | h₂
  · exact h₁
  · have := hstop _ _ (h.found t' ht').2
    omega

/-- The scan finds an address at the first `@` inside that it looks at. -/
theorem IsTrace.email_mem (htrace : IsTrace (anyAt x) x.length 0 trace)
    (hemail : IsEmail x s e) {a : Nat} (hs : s < a) (he : a + 1 < e) (hat : x[a]? = some atSign) :
    ∃ k, (k, (⟨s, e, PiiKind.email.marker⟩ : Span)) ∈ trace ∧ k ≤ a := by
  have hspan : anyAt x a = some ⟨s, e, PiiKind.email.marker⟩ :=
    anyAt_eq_some.mpr (.inl (emailAt_eq_some.mpr ⟨hat, hemail, hs, he, rfl⟩))
  rcases htrace.looks a (zero_le _) (by have := hemail.run.le_length; omega) with
    hall | ⟨t, ht, hlt, hlt'⟩
  · exact ⟨a, hall _ hspan, le_refl a⟩
  · rcases anyAt_eq_some.mp (htrace.found t ht).2 with h | h
    · obtain ⟨-, hemail', hs', -, hmarker⟩ := emailAt_eq_some.mp h
      obtain ⟨h₁, h₂⟩ := hemail'.eq_of_mem hemail (i := a) (by omega) hlt' (by omega) (by omega)
      have hspan' : t.2 = ⟨s, e, PiiKind.email.marker⟩ := Span.ext h₁ h₂ hmarker
      exact ⟨t.1, hspan' ▸ ht, le_of_lt hlt⟩
    · -- a number holds no `@`
      obtain ⟨htrim, hs', -, -, -⟩ := numberAt_eq_some.mp h
      have htoken := htrim.all a (by omega) hlt'
      rw [holdsAt_of_getElem hat, isTokenByte_atSign] at htoken
      cases htoken

/-- The scan finds a number at a digit of it, unless it jumps over the digit with an address. -/
theorem IsTrace.number_mem (htrace : IsTrace (anyAt x) x.length 0 trace)
    (hnumber : IsNumber kind x s e) (hs : s ≤ i) (he : i < e)
    (hd : holdsAt isAsciiDigit x i = true) :
    (⟨s, e, kind.marker⟩ : Span) ∈ trace.map Prod.snd ∨
      ∃ s' e' a, IsEmail x s' e' ∧ x[a]? = some atSign ∧ s' < a ∧ a < s ∧ i < e' := by
  have hspan : anyAt x i = some ⟨s, e, kind.marker⟩ :=
    anyAt_eq_some.mpr (.inr (numberAt_eq_some.mpr
      ⟨hnumber.trimmed, hs, he, hd, kind, hnumber.valid, rfl⟩))
  rcases htrace.looks i (zero_le _) (lt_length_of_holdsAt hd) with hall | ⟨t, ht, hlt, hlt'⟩
  · exact .inl (mem_map.mpr ⟨_, hall _ hspan, rfl⟩)
  · rcases anyAt_eq_some.mp (htrace.found t ht).2 with h | h
    · obtain ⟨hat, hemail, hs', -, -⟩ := emailAt_eq_some.mp h
      refine .inr ⟨_, _, t.1, hemail, hat, hs', ?_, hlt'⟩
      by_contra hge
      have htoken := hnumber.trimmed.all t.1 (by omega) (by omega)
      rw [holdsAt_of_getElem hat, isTokenByte_atSign] at htoken
      cases htoken
    · obtain ⟨htrim, hs', he', -, kind', hkind', hmarker⟩ := numberAt_eq_some.mp h
      obtain ⟨h₁, h₂⟩ := htrim.eq_of_mem hnumber.trimmed (i := i) (by omega) hlt' hs he
      rw [h₁, h₂, hnumber.valid] at hkind'
      cases hkind'
      exact .inl (mem_map.mpr ⟨t, ht, Span.ext h₁ h₂ hmarker⟩)

/-- **What the scan for all kinds finds.** -/
theorem mem_findAllSpans_iff :
    span ∈ findAllSpans x ↔
      (IsEmail x span.start span.stop ∧ span.marker = PiiKind.email.marker) ∨
      ∃ kind, IsNumber kind x span.start span.stop ∧ span.marker = kind.marker ∧
        ¬ Behind x span.start span.stop := by
  obtain ⟨trace, heq, htrace⟩ := findAllSpans_trace
  rw [heq]
  constructor
  · intro h
    obtain ⟨t, ht, rfl⟩ := mem_map.mp h
    rcases anyAt_eq_some.mp (htrace.found t ht).2 with hat | hat
    · obtain ⟨-, hemail, -, -, hmarker⟩ := emailAt_eq_some.mp hat
      exact .inl ⟨hemail, hmarker⟩
    · obtain ⟨htrim, hs, he, -, kind, hkind, hmarker⟩ := numberAt_eq_some.mp hat
      refine .inr ⟨kind, ⟨htrim, hkind⟩, hmarker, ?_⟩
      rintro ⟨s', e', a, hemail, ha, hs', has, hee⟩
      obtain ⟨k, hk, hka⟩ := htrace.email_mem hemail hs' (by have := htrim.lt; omega) ha
      have hjump : e' ≤ t.1 := htrace.stop_le (fun _ _ => any_lt_stop) hk ht (by
        show k < t.1
        omega)
      omega
  · rintro (⟨hemail, hmarker⟩ | ⟨kind, hnumber, hmarker, hbehind⟩)
    · obtain ⟨a, hs, he, hat⟩ := hemail.inner
      obtain ⟨k, hk, -⟩ := htrace.email_mem hemail hs he hat
      exact mem_map.mpr ⟨_, hk, Span.ext rfl rfl hmarker.symm⟩
    · have hspan : (⟨span.start, span.stop, kind.marker⟩ : Span) = span :=
        Span.ext rfl rfl hmarker.symm
      rw [← hspan]
      have hlt := hnumber.trimmed.lt
      -- an address that covers the first digit and one that covers the last are the same
      rcases htrace.number_mem hnumber (le_refl _) hlt hnumber.trimmed.first with
        h | ⟨s₁, e₁, a₁, hemail₁, hat₁, hs₁, ha₁, he₁⟩
      · exact h
      · rcases htrace.number_mem hnumber (by omega) (by omega) hnumber.trimmed.last with
          h | ⟨s₂, e₂, a₂, hemail₂, hat₂, hs₂, ha₂, he₂⟩
        · exact h
        · obtain ⟨rfl, rfl⟩ := hemail₁.eq_of_mem hemail₂ (i := span.start) (by omega) he₁ (by omega)
            (by omega)
          exact absurd ⟨s₁, e₁, a₁, hemail₁, hat₁, hs₁, ha₁, by omega⟩ hbehind

end S4.Filters
