import S4.Lib.Text

/-!
# SigV4 — PercentDecode

The names and values of a presigned query are percent-decoded before they are read.  The digits of
an escape are left to `u8::from_str_radix`, which takes a sign: `%+a` is read as `%0a`
(`percentDecode_eq_ok_iff`).  The decoder is exact where there is no such sign
(`percentDecode_exact_iff`), as in the keys that a listing encodes (`urlEncode_exact`).
-/

namespace S4.SigV4

open Lib

abbrev Bytes : Type := List UInt8

inductive SigV4Error where
  | invalidPresign
deriving DecidableEq

def percent : UInt8 := 0x25
def plus : UInt8 := 0x2b

def utf8 (s : String) : Bytes := s.toUTF8.data.toList

/-- `u8::from_str_radix` for two bytes and radix 16.  Two bytes that are not UTF-8 are no digits. -/
def fromStrRadix (high low : UInt8) : Option UInt8 :=
  if high = plus then (hexDigitValue low).map UInt8.ofNat
  else (hexDigitValue high).bind fun h => (hexDigitValue low).map fun l => UInt8.ofNat (16 * h + l)

/-- The loop of `percent_decode`. -/
def decodeEscapes : Bytes → Option Bytes
  | [] => some []
  | b :: rest =>
    if b = percent then
      match rest with
      | high :: low :: rest =>
        (fromStrRadix high low).bind fun byte => (decodeEscapes rest).map (byte :: ·)
      | _ => none
    else (decodeEscapes rest).map (b :: ·)

def percentDecode (value : String) : Except SigV4Error String :=
  match (decodeEscapes (utf8 value)).bind fun decoded => String.fromUTF8? ⟨decoded.toArray⟩ with
  | some s => .ok s
  | none => .error .invalidPresign

/-- `Encodes digit text bytes`: every percent sign of the text is followed by two hexadecimal
digits, the first of them read by `digit`, and with each such triplet replaced by its byte the text
is `bytes`. -/
inductive Encodes (digit : UInt8 → Option Nat) : Bytes → Bytes → Prop where
  | nil : Encodes digit [] []
  | plain {b : UInt8} {text bytes : Bytes} (hb : b ≠ percent) (rest : Encodes digit text bytes) :
      Encodes digit (b :: text) (b :: bytes)
  | escape {high low : UInt8} {h l : Nat} {text bytes : Bytes} (hhigh : digit high = some h)
      (hlow : hexDigitValue low = some l) (rest : Encodes digit text bytes) :
      Encodes digit (percent :: high :: low :: text) (UInt8.ofNat (16 * h + l) :: bytes)

/-- A digit, or a plus in its place. -/
def signedDigit (b : UInt8) : Option Nat := if b = plus then some 0 else hexDigitValue b

/-- A percent sign is followed by a plus. -/
def HasSign (text : Bytes) : Prop := [percent, plus] <:+: text

variable {text bytes : Bytes}

theorem fromStrRadix_eq (high low : UInt8) : fromStrRadix high low =
    (signedDigit high).bind fun h => (hexDigitValue low).map fun l => UInt8.ofNat (16 * h + l) := by
  unfold fromStrRadix signedDigit
  split
  · simp
  · rfl

theorem decodeEscapes_eq_some_iff :
    decodeEscapes text = some bytes ↔ Encodes signedDigit text bytes := by
  fun_induction decodeEscapes text generalizing bytes with
  | case1 =>
    refine ⟨fun h => ?_, fun h => ?_⟩
    · cases h
      exact .nil
    · cases h
      rfl
  | case2 high low rest ih =>
    simp only [fromStrRadix_eq, Option.bind_eq_some_iff, Option.map_eq_some_iff]
    constructor
    · rintro ⟨_, ⟨h, hhigh, l, hlow, rfl⟩, bytes, hrest, rfl⟩
      exact .escape hhigh hlow (ih.mp hrest)
    · intro h
      cases h with
      | plain hb => exact absurd rfl hb
      | escape hhigh hlow hrest => exact ⟨_, ⟨_, hhigh, _, hlow, rfl⟩, _, ih.mpr hrest, rfl⟩
  | case3 rest hshort =>
    refine ⟨fun h => (by cases h), fun h => ?_⟩
    cases h with
    | plain hb => exact absurd rfl hb
    | escape => exact (hshort _ _ _ rfl).elim
  | case4 b rest hb ih =>
    rw [Option.map_eq_some_iff]
    constructor
    · rintro ⟨bytes, hrest, rfl⟩
      exact .plain hb (ih.mp hrest)
    · intro h
      cases h with
      | plain _ hrest => exact ⟨_, ih.mpr hrest, rfl⟩
      | escape => exact absurd rfl hb

theorem digit_ne {b : UInt8} {n : Nat} (h : hexDigitValue b = some n) : b ≠ plus ∧ b ≠ percent := by
  constructor <;> rintro rfl <;> cases h

theorem encodes_iff :
    Encodes hexDigitValue text bytes ↔ Encodes signedDigit text bytes ∧ ¬ HasSign text := by
  constructor
  · intro h
    induction h with
    | nil => exact ⟨.nil, by simp [HasSign]⟩
    | plain hb _ ih =>
      exact ⟨.plain hb ih.1, by simpa [HasSign, List.infix_cons_iff, hb.symm] using ih.2⟩
    | escape hhigh hlow _ ih =>
      obtain ⟨hplus, hpercent⟩ := digit_ne hhigh
      refine ⟨.escape ((if_neg hplus).trans hhigh) hlow ih.1, ?_⟩
      simpa [HasSign, List.infix_cons_iff, hplus.symm, hpercent.symm, (digit_ne hlow).2.symm]
        using ih.2
  · rintro ⟨h, hsign⟩
    induction h with
    | nil => exact .nil
    | plain hb _ ih =>
      exact .plain hb (ih fun h => hsign (h.trans (List.suffix_cons _ _).isInfix))
    | @escape high low _ _ text _ hhigh hlow _ ih =>
      have hplus : high ≠ plus := by
        rintro rfl
        exact hsign ⟨[], _, rfl⟩
      rw [signedDigit, if_neg hplus] at hhigh
      exact .escape hhigh hlow (ih fun h => hsign (h.trans
        (List.suffix_append [percent, high, low] text).isInfix))

theorem fromUTF8?_eq_some_iff {s : String} :
    String.fromUTF8? ⟨bytes.toArray⟩ = some s ↔ utf8 s = bytes := by
  unfold String.fromUTF8? utf8
  constructor
  · intro h
    split at h
    · cases h
      rfl
    · cases h
  · rintro rfl
    have hvalid : (⟨s.toUTF8.data.toList.toArray⟩ : ByteArray).IsValidUTF8 := s.isValidUTF8
    rw [dif_pos hvalid]
    exact congrArg some (String.toByteArray_inj.mp rfl)

/-- **What is decoded is the text with its signs read as zeros.** -/
theorem percentDecode_eq_ok_iff {value s : String} :
    percentDecode value = .ok s ↔ Encodes signedDigit (utf8 value) (utf8 s) := by
  have hread : (decodeEscapes (utf8 value)).bind
    (fun decoded => String.fromUTF8? ⟨decoded.toArray⟩) =
      some s ↔ Encodes signedDigit (utf8 value) (utf8 s) := by
    simp only [Option.bind_eq_some_iff, decodeEscapes_eq_some_iff, fromUTF8?_eq_some_iff,
      exists_eq_right']
  rw [← hread, percentDecode]
  split
  · next h => simp [h]
  · next h => simp [h]

/-- **Percent-encoded text is decoded to what it encodes**, and nothing else is decoded if and only
if no percent sign of the value is followed by a plus, or the value is not percent-encoded even with
such a plus read as a zero. -/
theorem percentDecode_exact_iff (value : String) :
    (∀ s, Encodes hexDigitValue (utf8 value) (utf8 s) → percentDecode value = .ok s) ∧
    ((∀ s, percentDecode value = .ok s ↔ Encodes hexDigitValue (utf8 value) (utf8 s)) ↔
      ¬ HasSign (utf8 value) ∨ ∀ s, ¬ Encodes signedDigit (utf8 value) (utf8 s)) := by
  simp only [percentDecode_eq_ok_iff, encodes_iff]
  refine ⟨fun s h => h.1, fun h => ?_, ?_⟩
  · by_contra hnot
    rw [not_or, not_not, not_forall_not] at hnot
    obtain ⟨hsign, s, hs⟩ := hnot
    exact ((h s).mp hs).2 hsign
  · rintro (hsign | hnone) s
    · exact ⟨fun h => ⟨h, hsign⟩, And.left⟩
    · exact ⟨fun h => absurd h (hnone s), And.left⟩

/-- **A plus in an escape is taken for a zero.** -/
theorem signed_escape_decodes :
    percentDecode "%+A" = .ok "\n" ∧ ¬ Encodes hexDigitValue (utf8 "%+A") (utf8 "\n") := by
  refine ⟨percentDecode_eq_ok_iff.mpr ?_, fun h => (encodes_iff.mp h).2 ⟨[], [0x41], rfl⟩⟩
  exact Encodes.escape (h := 0) (l := 10) rfl rfl .nil

/-! ### The keys of a listing -/

/-- A byte that `url_encode` keeps. -/
def unreserved (b : UInt8) : Bool :=
  (0x30 ≤ b ∧ b ≤ 0x39) ∨ (0x41 ≤ b ∧ b ≤ 0x5a) ∨ (0x61 ≤ b ∧ b ≤ 0x7a) ∨
    b ∈ [0x2d, 0x5f, 0x2e, 0x7e]

/-- A digit of `{b:02X}`. -/
def upperDigit (n : Nat) : UInt8 := UInt8.ofNat (if n < 10 then 0x30 + n else 0x41 + (n - 10))

def urlByte (b : UInt8) : Bytes :=
  if unreserved b then [b] else [percent, upperDigit (b.toNat / 16), upperDigit (b.toNat % 16)]

def urlEncode (s : Bytes) : Bytes := s.flatMap urlByte

theorem encodes_urlEncode (s : Bytes) : Encodes hexDigitValue (urlEncode s) s := by
  have hdigit : ∀ n : Fin 16, hexDigitValue (upperDigit n) = some n.val := by decide +kernel
  induction s with
  | nil => exact .nil
  | cons b s ih =>
    have hb : b.toNat < 256 := b.toNat_lt
    rw [urlEncode, List.flatMap_cons, urlByte]
    split
    next hkept => exact .plain (by rintro rfl; exact absurd hkept (by decide +kernel)) ih
    next =>
      have h := Encodes.escape (hdigit ⟨b.toNat / 16, by omega⟩) (hdigit ⟨b.toNat % 16, by omega⟩)
        ih
      rwa [Nat.div_add_mod, UInt8.ofNat_toNat] at h

/-- **A key that is listed url-encoded is decoded to itself**, and its text has only unreserved
bytes and percent signs, none of them before a plus. -/
theorem urlEncode_exact (s : Bytes) :
    decodeEscapes (urlEncode s) = some s ∧ ¬ HasSign (urlEncode s) ∧
      ∀ b ∈ urlEncode s, unreserved b = true ∨ b = percent := by
  obtain ⟨h, hsign⟩ := encodes_iff.mp (encodes_urlEncode s)
  refine ⟨decodeEscapes_eq_some_iff.mpr h, hsign, fun b hb => ?_⟩
  have hdigit : ∀ n : Fin 16, unreserved (upperDigit n) = true := by decide +kernel
  obtain ⟨a, -, hb⟩ := List.mem_flatMap.mp hb
  have ha : a.toNat < 256 := a.toNat_lt
  rw [urlByte] at hb
  split at hb
  next hkept => exact .inl (List.mem_singleton.mp hb ▸ hkept)
  next =>
    simp only [List.mem_cons, List.not_mem_nil, or_false] at hb
    obtain rfl | rfl | rfl := hb
    · exact .inr rfl
    · exact .inl (hdigit ⟨a.toNat / 16, by omega⟩)
    · exact .inl (hdigit ⟨a.toNat % 16, by omega⟩)

end S4.SigV4
