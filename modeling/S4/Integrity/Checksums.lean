import S4.Lib.Text

/-!
# Integrity — Checksums

The checksums of a request payload (`integrity.rs`): the algorithms and their headers, and the
verifier that absorbs the decoded bytes and compares at the end.

Digests and the HMAC are functions of the bytes that they are given (`Digests`); a digest in
progress is the bytes that it has absorbed.
-/

namespace S4.Integrity

open Lib

abbrev Bytes : Type := List UInt8

inductive IntegrityError where
  | conflictingChecksum
  | decodedLengthMismatch
  | duplicateHeader (name : String)
  | duplicateTrailer (name : Bytes)
  | framing (message : String)
  | invalidChecksum (name : String)
  | invalidDecodedLength
  | invalidPayloadHash
  | missingChecksum
  | missingDecodedLength
  | missingTrailerDeclaration
  | oversizedFraming
  | payloadHashMismatch
  | signatureMismatch
  | trailingData
  | truncated
  | unsupportedContentEncoding
  | unsupportedPayloadMode
deriving DecidableEq

/-- The functions of the libraries that the gateway links. -/
class Digests where
  sha256 : Bytes → Bytes
  sha1 : Bytes → Bytes
  crc32 : Bytes → Bytes
  crc32c : Bytes → Bytes
  crc64nvme : Bytes → Bytes
  hmacSha256 : Bytes → Bytes → Bytes
  base64Decode : Bytes → Option Bytes
  /-- `std::str::from_utf8` succeeds. -/
  utf8 : Bytes → Bool

inductive ChecksumAlgorithm where
  | crc32
  | crc32c
  | crc64Nvme
  | sha1
  | sha256
deriving DecidableEq

variable {algorithm : ChecksumAlgorithm}

namespace ChecksumAlgorithm

def all : List (ChecksumAlgorithm × String) :=
  [(crc32, "x-amz-checksum-crc32"),
   (crc32c, "x-amz-checksum-crc32c"),
   (crc64Nvme, "x-amz-checksum-crc64nvme"),
   (sha1, "x-amz-checksum-sha1"),
   (sha256, "x-amz-checksum-sha256")]

/-- The header of an algorithm; every algorithm has one. -/
def header (self : ChecksumAlgorithm) : String :=
  (all.findSome? fun (algorithm, name) => if algorithm = self then some name else none).getD ""

def sdkName : ChecksumAlgorithm → String
  | crc32 => "CRC32"
  | crc32c => "CRC32C"
  | crc64Nvme => "CRC64NVME"
  | sha1 => "SHA1"
  | sha256 => "SHA256"

def fromHeader (name : Bytes) : Option ChecksumAlgorithm :=
  all.findSome? fun (algorithm, header) =>
    if eqIgnoreAsciiCase name (ascii header) then some algorithm else none

theorem header_of_mem {name : String} (h : (algorithm, name) ∈ all) : algorithm.header = name := by
  simp only [all, List.mem_cons, Prod.mk.injEq, List.not_mem_nil, or_false] at h
  rcases h with ⟨rfl, rfl⟩ | ⟨rfl, rfl⟩ | ⟨rfl, rfl⟩ | ⟨rfl, rfl⟩ | ⟨rfl, rfl⟩ <;> rfl

/-- An algorithm is found by its own header only. -/
theorem eq_header_of_fromHeader {name : Bytes}
    (h : fromHeader name = some algorithm) : eqIgnoreAsciiCase name (ascii algorithm.header) =
    true := by
  obtain ⟨⟨algorithm', header⟩, hmem, hite⟩ := List.exists_of_findSome?_eq_some h
  obtain ⟨heq, e⟩ := Option.ite_none_right_eq_some.mp hite
  cases e
  rw [header_of_mem hmem]
  exact heq

variable [Digests]

/-- The digest of the absorbed bytes. -/
def finalize (algorithm : ChecksumAlgorithm) (absorbed : Bytes) : Bytes :=
  match algorithm with
  | crc32 => Digests.crc32 absorbed
  | crc32c => Digests.crc32c absorbed
  | crc64Nvme => Digests.crc64nvme absorbed
  | sha1 => Digests.sha1 absorbed
  | sha256 => Digests.sha256 absorbed

def expectedLen : ChecksumAlgorithm → Nat
  | crc32 | crc32c => 4
  | crc64Nvme => 8
  | sha1 => 20
  | sha256 => 32

end ChecksumAlgorithm

/-- Compare without an early exit: the differences of all bytes are collected. -/
def constantTimeEq (left right : Bytes) : Bool :=
  if left.length ≠ right.length then false
  else (left.zip right).foldl (fun difference e => difference ||| (e.1 ^^^ e.2)) 0 == 0

/-- **The comparison is equality.** -/
theorem constantTimeEq_iff {left right : Bytes} : constantTimeEq left right = true ↔
    left = right := by
  -- the collected difference is zero iff it was before and the bytes agree
  have hfold : ∀ (left right : Bytes) (d : UInt8), left.length = right.length →
      ((left.zip right).foldl (fun difference e => difference ||| (e.1 ^^^ e.2)) d = 0 ↔
        d = 0 ∧ left = right) := by
    intro left
    induction left with
    | nil =>
      intro right d hlen
      obtain rfl : right = [] := List.eq_nil_of_length_eq_zero hlen.symm
      simp
    | cons a left ih =>
      intro right d hlen
      cases right with
      | nil => cases hlen
      | cons b right =>
        rw [List.zip_cons_cons, List.foldl_cons, ih right _ (Nat.succ.inj hlen),
          List.cons.injEq]
        simp [UInt8.or_eq_zero_iff, and_assoc]
  rw [constantTimeEq]
  split
  · next hlen =>
    simp only [Bool.false_eq_true, false_iff]
    rintro rfl
    exact hlen rfl
  · next hlen =>
    rw [beq_iff_eq, hfold left right 0 (not_not.mp hlen)]
    simp

def decodeChecksum [Digests] (algorithm : ChecksumAlgorithm) (value : Bytes) :
    Except IntegrityError Bytes :=
  match Digests.base64Decode value with
  | none => .error (.invalidChecksum algorithm.header)
  | some decoded =>
    if decoded.length ≠ algorithm.expectedLen then .error (.invalidChecksum algorithm.header)
    else .ok decoded

def parseSha256 (value : Bytes) : Except IntegrityError Bytes :=
  if value.length ≠ 64 ∨ value.all isAsciiHexdigit = false then .error .invalidPayloadHash
  else match hexDecode value with
    | none => .error .invalidPayloadHash
    | some output => .ok output

structure ChecksumVerifier where
  algorithm : ChecksumAlgorithm
  /-- The bytes that the digest has absorbed. -/
  state : Bytes
  expected : Option Bytes
  trailerRequired : Bool
deriving DecidableEq

namespace ChecksumVerifier

variable [Digests]

def update (c : ChecksumVerifier) (bytes : Bytes) : ChecksumVerifier :=
  { c with state := c.state ++ bytes }

def setTrailer (c : ChecksumVerifier) (name value : Bytes) :
    Except IntegrityError ChecksumVerifier :=
  if eqIgnoreAsciiCase name (ascii c.algorithm.header) = false ∨ c.expected.isSome = true then
    .error .conflictingChecksum
  else do
    let expected ← decodeChecksum c.algorithm value
    return { c with expected := some expected }

def finish (c : ChecksumVerifier) : Except IntegrityError Unit :=
  match c.expected with
  | none => .error .missingChecksum
  | some expected =>
    if c.trailerRequired = true ∧ expected = [] then .error .missingChecksum
    else if constantTimeEq (c.algorithm.finalize c.state) expected then .ok ()
    else .error (.invalidChecksum c.algorithm.header)

end ChecksumVerifier

end S4.Integrity
