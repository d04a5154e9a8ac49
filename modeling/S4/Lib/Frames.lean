import Mathlib

/-!
# Library — Frames — authenticated frames in a byte stream

A reader takes exact numbers of bytes from a source that may end or break anywhere (`readExact`).
Lengths are written as four bytes, most significant first, and come back modulo `2 ^ 32`
(`fromBe_be32`).  An AEAD encrypts a message with a tag of sixteen bytes and decrypts what it has
encrypted (`LawfulAead`); an ideal one decrypts nothing else (`IdealAead`).
-/

namespace Lib

open List

/-! ### Sources -/

/-- What is left of a byte stream; a broken one fails where its bytes end. -/
structure Source where
  bytes : List UInt8
  broken : Bool
deriving DecidableEq

inductive ReadError where
  | unexpectedEof
  | other
deriving DecidableEq

variable {n : Nat}

namespace Source

def readExact (s : Source) (n : Nat) : Except ReadError (List UInt8 × Source) :=
  if n ≤ s.bytes.length then .ok (s.bytes.take n, { s with bytes := s.bytes.drop n })
  else .error (if s.broken then .other else .unexpectedEof)

/-- What stands at the front is read. -/
theorem readExact_append (front : List UInt8) (h : front.length = n) (rest : List UInt8)
    (broken : Bool) : readExact ⟨front ++ rest, broken⟩ n = .ok (front, ⟨rest, broken⟩) := by
  rw [readExact, if_pos (by simp [h]), take_left' h, drop_left' h]

/-- What is read stood at the front. -/
theorem readExact_eq_ok {s s' : Source} {front : List UInt8} (h : s.readExact n = .ok (front, s')) :
    s.bytes = front ++ s'.bytes ∧ front.length = n ∧ s'.broken = s.broken := by
  rw [readExact] at h
  split at h
  · next hle =>
    cases h
    exact ⟨(take_append_drop n s.bytes).symm, length_take_of_le hle, rfl⟩
  · cases h

end Source

/-! ### Lengths -/

/-- The length of a row of pieces that are of one length. -/
theorem length_flatMap_of_forall {α β : Type} {f : α → List β} {l : List α}
    (h : ∀ a ∈ l, (f a).length = n) : (l.flatMap f).length = l.length * n := by
  rw [length_flatMap, map_congr_left h, map_const', sum_replicate, smul_eq_mul]

/-- A number as four bytes, as far as they go. -/
def be32 (n : Nat) : List UInt8 :=
  [UInt8.ofNat (n / 2 ^ 24), UInt8.ofNat (n / 2 ^ 16), UInt8.ofNat (n / 2 ^ 8), UInt8.ofNat n]

/-- The number with the given bytes, the most significant first. -/
def fromBe (bytes : List UInt8) : Nat := bytes.foldl (fun n b => 256 * n + b.toNat) 0

theorem length_be32 (n : Nat) : (be32 n).length = 4 := rfl

theorem fromBe_be32 (n : Nat) : fromBe (be32 n) = n % 2 ^ 32 := by
  simp only [fromBe, be32, foldl_cons, foldl_nil, UInt8.toNat_ofNat']
  omega

theorem fromBe_be32_of_lt (h : n < 2 ^ 32) : fromBe (be32 n) = n := by
  rw [fromBe_be32, Nat.mod_eq_of_lt h]

/-- Four bytes are those of their number. -/
theorem be32_fromBe {bytes : List UInt8} (h : bytes.length = 4) : be32 (fromBe bytes) = bytes := by
  obtain ⟨a, b, c, d, rfl⟩ := length_eq_four.mp h
  have ha := a.toNat_lt
  have hb := b.toNat_lt
  have hc := c.toNat_lt
  have hd := d.toNat_lt
  simp only [fromBe, be32, foldl_cons, foldl_nil, cons.injEq, ← UInt8.toNat_inj,
    UInt8.toNat_ofNat', and_true]
  omega

/-- A number as eight bytes, as far as they go. -/
def be64 (n : Nat) : List UInt8 := be32 (n / 2 ^ 32) ++ be32 n

theorem be64_inj {m : Nat} (hm : m < 2 ^ 64) (hn : n < 2 ^ 64) (h : be64 m = be64 n) : m = n := by
  obtain ⟨hhigh, hlow⟩ := append_inj h rfl
  have hhigh := congrArg fromBe hhigh
  have hlow := congrArg fromBe hlow
  rw [fromBe_be32, fromBe_be32] at hhigh hlow
  omega

/-! ### Authenticated encryption -/

/-- An AEAD: a message is encrypted under a key and a nonce, bound to associated data. -/
class Aead where
  encrypt : (key nonce message associated : List UInt8) → Option (List UInt8)
  decrypt : (key nonce ciphertext associated : List UInt8) → Option (List UInt8)

/-- The bytes of a tag. -/
def tagLen : Nat := 16

/-- What is encrypted is decrypted, and a ciphertext is its message and a tag. -/
class LawfulAead [Aead] : Prop where
  decrypt_encrypt : ∀ {key nonce message associated ciphertext : List UInt8},
    Aead.encrypt key nonce message associated = some ciphertext →
      Aead.decrypt key nonce ciphertext associated = some message
  length_of_decrypt : ∀ {key nonce message associated ciphertext : List UInt8},
    Aead.decrypt key nonce ciphertext associated = some message →
      ciphertext.length = message.length + tagLen

theorem length_of_encrypt [Aead] [LawfulAead] {key nonce message associated ciphertext : List UInt8}
    (h : Aead.encrypt key nonce message associated = some ciphertext) :
    ciphertext.length = message.length + tagLen :=
  LawfulAead.length_of_decrypt (LawfulAead.decrypt_encrypt h)

/-- A message that was encrypted, and its ciphertext. -/
structure Sealed where
  nonce : List UInt8
  message : List UInt8
  associated : List UInt8
  ciphertext : List UInt8

/-- **An ideal AEAD**: a key opens what was sealed with it and nothing else. -/
structure IdealAead [Aead] (key : List UInt8) (log : List Sealed) : Prop where
  decrypt_iff : ∀ nonce message associated ciphertext,
    Aead.decrypt key nonce ciphertext associated = some message ↔
      ⟨nonce, message, associated, ciphertext⟩ ∈ log
  length_of_mem : ∀ e ∈ log, e.ciphertext.length = e.message.length + tagLen

end Lib
