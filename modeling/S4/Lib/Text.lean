import Mathlib

/-!
# Library — Text — strings as their bytes

A text is the list of its bytes.  Here are the operations on texts that a parser of ASCII protocols
uses: case, splitting, trimming, and numbers in decimal and hexadecimal.  A hexadecimal text in
lower case is the encoding of the bytes that it decodes to (`toAsciiLowercase_of_hexDecode`).
-/

namespace Lib

open List

variable {separator b : UInt8} {s before : List UInt8} {n w : Nat}

/-- The bytes of a literal. -/
def ascii (s : String) : List UInt8 := s.toList.map fun c => UInt8.ofNat c.toNat

def crlf : List UInt8 := [0x0d, 0x0a]

/-- What holds of the bytes `0` to `255` holds of every byte. -/
theorem forall_byte {P : UInt8 → Prop} (h : ∀ k : Fin 256, P (UInt8.ofNat k)) (b : UInt8) :
    P b := by
  have hb := h ⟨b.toNat, b.toNat_lt⟩
  rwa [UInt8.ofNat_toNat] at hb

/-! ### Case -/

def lowerByte (b : UInt8) : UInt8 := if 0x41 ≤ b ∧ b ≤ 0x5a then b + 0x20 else b

def toAsciiLowercase (s : List UInt8) : List UInt8 := s.map lowerByte

def eqIgnoreAsciiCase (s t : List UInt8) : Bool := toAsciiLowercase s == toAsciiLowercase t

theorem lowerByte_lowerByte {b : UInt8} : lowerByte (lowerByte b) = lowerByte b := by
  simp only [lowerByte]
  split
  · next h =>
    rw [if_neg]
    simp only [UInt8.le_iff_toNat_le, UInt8.toNat_add, UInt8.reduceToNat] at *
    omega
  · rfl

theorem toAsciiLowercase_twice (s : List UInt8) :
    toAsciiLowercase (toAsciiLowercase s) = toAsciiLowercase s := by
  simp only [toAsciiLowercase, map_map]
  exact map_congr_left fun b _ => lowerByte_lowerByte

/-! ### Splitting and trimming -/

/-- The texts before and after the first separator. -/
def splitOnce (separator : UInt8) : List UInt8 → Option (List UInt8 × List UInt8)
  | [] => none
  | b :: bs =>
    if b = separator then some ([], bs)
    else (splitOnce separator bs).map fun e => (b :: e.1, e.2)

theorem splitOnce_eq {after : List UInt8}
    (h : splitOnce separator s = some (before, after)) : s = before ++ separator :: after := by
  induction s generalizing before with
  | nil => cases h
  | cons b bs ih =>
    rw [splitOnce] at h
    split at h
    · next hb =>
      cases h
      rw [hb, nil_append]
    · obtain ⟨e, he, heq⟩ := Option.map_eq_some_iff.mp h
      cases heq
      rw [ih he, cons_append]

theorem splitOnce_append (h : separator ∉ before)
    (after : List UInt8) : splitOnce separator (before ++ separator :: after) =
    some (before, after) := by
  induction before with
  | nil => simp [splitOnce]
  | cons b before ih =>
    simp only [mem_cons, not_or] at h
    rw [cons_append, splitOnce, if_neg (Ne.symm h.1), ih h.2]
    rfl

theorem splitOnce_eq_none (h : separator ∉ s) : splitOnce separator s = none := by
  induction s with
  | nil => rfl
  | cons b s ih =>
    simp only [mem_cons, not_or] at h
    rw [splitOnce, if_neg (Ne.symm h.1), ih h.2]
    rfl

/-- The encodings of the characters that are white space. -/
def whitespace : List (List UInt8) :=
  [[0x09], [0x0a], [0x0b], [0x0c], [0x0d], [0x20], [0xc2, 0x85], [0xc2, 0xa0],
    [0xe1, 0x9a, 0x80]] ++
  (range 11).map (fun i => [0xe2, 0x80, 0x80 + UInt8.ofNat i]) ++
  [[0xe2, 0x80, 0xa8], [0xe2, 0x80, 0xa9], [0xe2, 0x80, 0xaf], [0xe2, 0x81, 0x9f],
    [0xe3, 0x80, 0x80]]

/-- Drop what `drop` takes off, again and again; there are no more pieces than bytes. -/
def dropAll (drop : List UInt8 → Option (List UInt8)) : Nat → List UInt8 → List UInt8
  | 0,        s => s
  | fuel + 1, s => match drop s with
      | none => s
      | some s => dropAll drop fuel s

def trim (s : List UInt8) : List UInt8 :=
  let s := dropAll (fun s => whitespace.findSome? (s.dropPrefix? ·)) s.length s
  dropAll (fun s => whitespace.findSome? (s.dropSuffix? ·)) s.length s

/-- A text of visible ASCII characters. -/
def Visible (s : List UInt8) : Prop := ∀ b ∈ s, 0x21 ≤ b ∧ b ≤ 0x7e

instance (s : List UInt8) : Decidable (Visible s) :=
  decidable_of_iff (s.all (fun b => 0x21 ≤ b ∧ b ≤ 0x7e) = true) (by simp [Visible])

theorem Visible.append {t : List UInt8} (hs : Visible s) (ht : Visible t) : Visible (s ++ t) := by
  intro b hb
  exact (mem_append.mp hb).elim (hs b) (ht b)

theorem dropAll_eq_self (drop : List UInt8 → Option (List UInt8))
    (h : drop s = none) (fuel : Nat) : dropAll drop fuel s = s := by
  cases fuel with
  | zero => rfl
  | succ => rw [dropAll, h]

/-- Nothing that only drops a part of a visible text finds a white space in it. -/
theorem Visible.findSome?_eq_none (h : Visible s) {drop : List UInt8 → Option (List UInt8)}
    (hdrop : ∀ w rest, drop w = some rest → w ⊆ s) : whitespace.findSome? drop = none := by
  rw [findSome?_eq_none_iff]
  intro w hw
  have hends : ∀ w ∈ whitespace, ∃ b ∈ w, ¬ (0x21 ≤ b ∧ b ≤ 0x7e) := by decide
  obtain ⟨b, hb, hnot⟩ := hends w hw
  by_contra hsome
  obtain ⟨rest, hrest⟩ := Option.ne_none_iff_exists'.mp hsome
  exact hnot (h b (hdrop w rest hrest hb))

/-- **A visible text has nothing to trim.** -/
theorem trim_of_visible (h : Visible s) : trim s = s := by
  have hfront : whitespace.findSome? (s.dropPrefix? ·) = none := by
    refine h.findSome?_eq_none fun w rest hrest => ?_
    obtain ⟨p, rfl, hp⟩ := dropPrefix?_eq_some_iff.mp hrest
    exact beq_iff_eq.mp hp ▸ subset_append_left ..
  have hback : whitespace.findSome? (s.dropSuffix? ·) = none := by
    refine h.findSome?_eq_none fun w rest hrest => ?_
    obtain ⟨p, rfl, hp⟩ := dropSuffix?_eq_some_iff.mp hrest
    exact beq_iff_eq.mp hp ▸ subset_append_right ..
  rw [trim, dropAll_eq_self (fun s => whitespace.findSome? (s.dropPrefix? ·)) hfront]
  exact dropAll_eq_self (fun s => whitespace.findSome? (s.dropSuffix? ·)) hback _

/-! ### Numbers -/

def isAsciiDigit (b : UInt8) : Bool := 0x30 ≤ b ∧ b ≤ 0x39

/-- A decimal number below `2 ^ 64`, with an optional `+`. -/
def parseU64 (s : List UInt8) : Option Nat :=
  let digits := if s.head? = some 0x2b then s.tail else s
  if digits = [] ∨ digits.all isAsciiDigit = false then none
  else
    let value := digits.foldl (fun n b => 10 * n + (b.toNat - 0x30)) 0
    if value < 2 ^ 64 then some value else none

theorem parseU64_lt (h : parseU64 s = some n) : n < 2 ^ 64 := by
  simp only [parseU64] at h
  generalize (if s.head? = some 0x2b then s.tail else s) = digits at h
  split at h
  · cases h
  · obtain ⟨hlt, heq⟩ := Option.ite_none_right_eq_some.mp h
    cases heq
    exact hlt

/-- The last decimal digit. -/
def digit (n : Nat) : UInt8 := UInt8.ofNat (0x30 + n % 10)

/-- The last `w` decimal digits. -/
def padded : Nat → Nat → List UInt8
  | 0,     _ => []
  | w + 1, n => padded w (n / 10) ++ [digit n]

def parseDigits (s : List UInt8) : Option Nat :=
  s.foldlM (fun n b => if isAsciiDigit b then some (n * 10 + (b.toNat - 0x30)) else none) 0

theorem digit_spec {n : Nat} : isAsciiDigit (digit n) = true ∧ (digit n).toNat - 0x30 = n % 10 := by
  have hall : ∀ d : Fin 10, isAsciiDigit (digit d) = true ∧ (digit d).toNat - 0x30 = d.val := by
    decide
  have h := hall ⟨n % 10, Nat.mod_lt n (by decide)⟩
  rwa [digit, Nat.mod_mod] at h

theorem length_padded (w n : Nat) : (padded w n).length = w := by
  induction w generalizing n with
  | zero => rfl
  | succ w ih => rw [padded, length_append, ih, length_singleton]

theorem isAsciiDigit_of_mem_padded (h : b ∈ padded w n) : isAsciiDigit b = true := by
  induction w generalizing n with
  | zero => cases h
  | succ w ih =>
    rcases mem_append.mp h with h | h
    · exact ih h
    · rw [mem_singleton.mp h]
      exact digit_spec.1

theorem parseDigits_padded (h : n < 10 ^ w) : parseDigits (padded w n) = some n := by
  induction w generalizing n with
  | zero =>
    obtain rfl : n = 0 := by simpa using h
    rfl
  | succ w ih =>
    have ih := ih (n := n / 10) (by omega)
    rw [parseDigits] at ih
    rw [parseDigits, padded, foldlM_append, ih]
    simp [digit_spec.1, digit_spec.2, Nat.div_add_mod']

/-- The value of a hexadecimal digit. -/
def hexDigitValue (b : UInt8) : Option Nat :=
  if 0x30 ≤ b ∧ b ≤ 0x39 then some (b.toNat - 0x30)
  else if 0x41 ≤ b ∧ b ≤ 0x46 then some (b.toNat - 0x41 + 10)
  else if 0x61 ≤ b ∧ b ≤ 0x66 then some (b.toNat - 0x61 + 10)
  else none

def isAsciiHexdigit (b : UInt8) : Bool := (hexDigitValue b).isSome

/-- The number with the given hexadecimal digits. -/
def fromHex (digits : List UInt8) : Nat :=
  digits.foldl (fun n b => 16 * n + (hexDigitValue b).getD 0) 0

def hexDigit (n : Nat) : UInt8 :=
  if n < 10 then UInt8.ofNat (0x30 + n) else UInt8.ofNat (0x61 + (n - 10))

def hexEncode (s : List UInt8) : List UInt8 :=
  s.flatMap fun b => [hexDigit (b.toNat / 16), hexDigit (b.toNat % 16)]

def hexDecode : List UInt8 → Option (List UInt8)
  | [] => some []
  | [_] => none
  | a :: b :: s => do
    let high ← hexDigitValue a
    let low ← hexDigitValue b
    let rest ← hexDecode s
    return UInt8.ofNat (16 * high + low) :: rest

theorem hexDigitValue_hexDigit (h : n < 16) : hexDigitValue (hexDigit n) = some n := by
  have hall : ∀ n : Fin 16, hexDigitValue (hexDigit n) = some n.val := by decide
  exact hall ⟨n, h⟩

theorem lowerByte_of_hexDigitValue (h : hexDigitValue b = some n) :
    lowerByte b = hexDigit n ∧ n < 16 := by
  have hall : ∀ b n, hexDigitValue b = some n → lowerByte b = hexDigit n ∧ n < 16 :=
    forall_byte (by decide +kernel)
  exact hall b n h

theorem hexDecode_hexEncode (s : List UInt8) : hexDecode (hexEncode s) = some s := by
  induction s with
  | nil => rfl
  | cons b s ih =>
    have hb : b.toNat < 256 := b.toNat_lt
    have hhigh : b.toNat / 16 < 16 := by omega
    have hlow : b.toNat % 16 < 16 := by omega
    have hsum : 16 * (b.toNat / 16) + b.toNat % 16 = b.toNat := Nat.div_add_mod _ _
    change (do
      let high ← hexDigitValue (hexDigit (b.toNat / 16))
      let low ← hexDigitValue (hexDigit (b.toNat % 16))
      let rest ← hexDecode (hexEncode s)
      return UInt8.ofNat (16 * high + low) :: rest) = _
    rw [hexDigitValue_hexDigit hhigh, hexDigitValue_hexDigit hlow, ih]
    change some (UInt8.ofNat (16 * (b.toNat / 16) + b.toNat % 16) :: s) = _
    rw [hsum, UInt8.ofNat_toNat]

theorem visible_of_hexdigits (h : s.all isAsciiHexdigit = true) : Visible s := by
  have hall : ∀ b, isAsciiHexdigit b = true → 0x21 ≤ b ∧ b ≤ 0x7e := forall_byte (by decide +kernel)
  exact fun b hb => hall b (all_eq_true.mp h b hb)

/-- Digits in pairs are decoded. -/
theorem hexDecode_of_hexdigits (h : s.all isAsciiHexdigit = true)
    (heven : s.length % 2 = 0) : ∃ bytes, hexDecode s = some bytes := by
  fun_induction hexDecode s with
  | case1 => exact ⟨[], rfl⟩
  | case2 => simp at heven
  | case3 a b s ih =>
    simp only [all_cons, Bool.and_eq_true] at h
    obtain ⟨high, hhigh⟩ := Option.isSome_iff_exists.mp h.1
    obtain ⟨low, hlow⟩ := Option.isSome_iff_exists.mp h.2.1
    obtain ⟨rest, hrest⟩ := ih h.2.2 (by simp only [length_cons] at heven; omega)
    rw [hhigh, hlow, hrest]
    exact ⟨_, rfl⟩

theorem length_hexEncode (s : List UInt8) : (hexEncode s).length = 2 * s.length := by
  simp [hexEncode, length_flatMap, mul_comm]

theorem hexEncode_hexdigits (s : List UInt8) : (hexEncode s).all isAsciiHexdigit = true := by
  simp only [hexEncode, all_flatMap, all_eq_true, all_cons, all_nil, Bool.and_true,
    Bool.and_eq_true, isAsciiHexdigit]
  intro b _
  have hb : b.toNat < 256 := b.toNat_lt
  rw [hexDigitValue_hexDigit (by omega), hexDigitValue_hexDigit (by omega)]
  exact ⟨rfl, rfl⟩

/-- The case of the digits does not matter. -/
theorem hexdigits_of_toAsciiLowercase
    (h : (toAsciiLowercase s).all isAsciiHexdigit = true) : s.all isAsciiHexdigit = true := by
  have hall : ∀ b, isAsciiHexdigit (lowerByte b) = true → isAsciiHexdigit b = true :=
    forall_byte (by decide +kernel)
  rw [toAsciiLowercase, all_map, all_eq_true] at h
  exact all_eq_true.mpr fun b hb => hall b (h b hb)

/-- **A lower-case hexadecimal text is an encoding.** -/
theorem toAsciiLowercase_of_hexDecode {bytes : List UInt8} (h : hexDecode s = some bytes) :
    toAsciiLowercase s = hexEncode bytes := by
  fun_induction hexDecode s generalizing bytes with
  | case1 =>
    cases h
    rfl
  | case2 => cases h
  | case3 a b s ih =>
    obtain ⟨high, hhigh, h⟩ := Option.bind_eq_some_iff.mp h
    obtain ⟨low, hlow, h⟩ := Option.bind_eq_some_iff.mp h
    obtain ⟨rest, hrest, h⟩ := Option.bind_eq_some_iff.mp h
    cases h
    obtain ⟨ha, hhigh⟩ := lowerByte_of_hexDigitValue hhigh
    obtain ⟨hb, hlow⟩ := lowerByte_of_hexDigitValue hlow
    have hbyte : (UInt8.ofNat (16 * high + low)).toNat = 16 * high + low := by
      rw [UInt8.toNat_ofNat', Nat.mod_eq_of_lt (by omega)]
    have hdiv : (16 * high + low) / 16 = high := by omega
    have hmod : (16 * high + low) % 16 = low := by omega
    simp only [toAsciiLowercase, map_cons, ha, hb, hexEncode, flatMap_cons, hbyte, hdiv,
      hmod, cons_append, nil_append]
    exact congrArg _ (congrArg _ (ih hrest))

end Lib
