import S4.Sinks.Local
import S4.Staging.Artifacts

/-!
# Reads — Spool

The encrypted spool of a transformed read (`read_spool.rs`).  `EncryptedReadSpool` collects what is
written into frames of 64 KiB and seals each of them under a key that lives with the request; the
number of a frame is its associated data.  `intoBody` seals what is pending, and the body then
replays the file frame by frame until the file ends (`Delivers`).
-/

namespace S4.Reads

open Lib
open Sinks (SpoolQuota)
open Staging (Bytes Key Nonce)
open Transaction (TransactionError)

def nonceBytes : Nat := Staging.nonceLen
def plaintextFrameBytes : Nat := 64 * 1024
def frameOverheadBytes : Nat := 4 + nonceBytes + 16

def diskReservation (maxObjectBytes : Nat) : Except TransactionError Nat :=
  let total := do
    let n ← checkedAdd 64 maxObjectBytes (plaintextFrameBytes - 1)
    let overhead ← checkedMul 64 (n / plaintextFrameBytes) frameOverheadBytes
    checkedAdd 64 maxObjectBytes overhead
  total.elim (.error .capacityExceeded) .ok

/-- The spool of one read.  `log` is what has been sealed with the key; no call reads it. -/
structure EncryptedReadSpool where
  /-- The content of the file, until it is closed. -/
  file : Option Bytes
  reservedBytes : Nat
  maxObjectBytes : Nat
  bytes : Nat
  key : Key
  chunkNumber : Nat
  pending : Bytes
  log : List Sealed

/-- The key that `start` draws, and the failures of its file operations. -/
structure StartEnv where
  key : Key
  directoryFailure : Option String
  fileFailure : Option String

/-- The nonce that each frame draws, and the failures of its writes, by the number of the frame. -/
structure FrameEnv where
  nonce : Nat → Nonce
  failure : Nat → Option String

/-- What the task that replays a file is given. -/
structure Replay where
  file : Bytes
  key : Key
  bytes : Nat
  log : List Sealed

/-- A frame of the file. -/
def frameOf (e : Sealed) : Bytes := be32 e.message.length ++ (e.nonce ++ e.ciphertext)

/-! ### The writer -/

namespace EncryptedReadSpool

/-- `begin`. -/
def start (env : StartEnv) (maxObjectBytes : Nat) (quota : SpoolQuota) :
    Except TransactionError EncryptedReadSpool × SpoolQuota :=
  if maxObjectBytes = 0 then
    (.error (.spool "transformed-read spool object limit must be greater than zero"), quota)
  else match diskReservation maxObjectBytes with
    | .error e => (.error e, quota)
    | .ok reservedBytes => match quota.reserveBytes reservedBytes with
        | (.error e, quota) => (.error e, quota)
        | (.ok (), quota) => match env.directoryFailure, env.fileFailure with
            | some e, _ | none, some e => (.error (.spool e), quota.releaseBytes reservedBytes)
            | none, none => (.ok {
                file := some []
                reservedBytes
                maxObjectBytes
                bytes := 0
                key := env.key
                chunkNumber := 0
                pending := []
                log := [] }, quota)

variable [Aead] (env : FrameEnv)

def writeFrame (s : EncryptedReadSpool) (plaintext : Bytes) :
    Except TransactionError EncryptedReadSpool :=
  let nonce := env.nonce s.chunkNumber
  let aad := be64 s.chunkNumber
  match Aead.encrypt s.key nonce plaintext aad with
  | none => .error (.spool "transformed-read spool encryption failed")
  | some ciphertext => match s.file with
      | none => .error .finished
      | some file => match env.failure s.chunkNumber with
          | some e => .error (.spool e)
          | none => .ok { s with
              file := some (file ++ (be32 plaintext.length ++ (nonce ++ ciphertext)))
              chunkNumber := satAdd 64 s.chunkNumber 1
              log := s.log ++ [⟨nonce, plaintext, aad, ciphertext⟩] }

def flushPending (s : EncryptedReadSpool) : Except TransactionError EncryptedReadSpool :=
  if s.pending = [] then .ok s else writeFrame env { s with pending := [] } s.pending

/-- Fill the pending frame, if there is one, and return what remains. -/
def fillPending (s : EncryptedReadSpool) (remaining : Bytes) :
    Except TransactionError (EncryptedReadSpool × Bytes) :=
  if s.pending = [] then .ok (s, remaining)
  else
    let take := min (plaintextFrameBytes - s.pending.length) remaining.length
    let s := { s with pending := s.pending ++ remaining.take take }
    if s.pending.length = plaintextFrameBytes then do
      let s ← s.flushPending env
      return (s, remaining.drop take)
    else .ok (s, remaining.drop take)

/-- Write the full frames of what remains, and keep the rest. -/
def writeFull (s : EncryptedReadSpool) (remaining : Bytes) :
    Except TransactionError EncryptedReadSpool :=
  if plaintextFrameBytes ≤ remaining.length then do
    let s ← s.writeFrame env (remaining.take plaintextFrameBytes)
    s.writeFull (remaining.drop plaintextFrameBytes)
  else .ok { s with pending := s.pending ++ remaining }
termination_by remaining.length
decreasing_by
  have : 0 < plaintextFrameBytes := by decide
  rw [List.length_drop]
  omega

def write (s : EncryptedReadSpool) (plaintext : Bytes) :
    Except TransactionError EncryptedReadSpool :=
  match checkedAdd 64 s.bytes plaintext.length with
  | none => .error .capacityExceeded
  | some next =>
    if next > s.maxObjectBytes then .error .capacityExceeded
    else do
      let (s, remaining) ← { s with bytes := next }.fillPending env plaintext
      s.writeFull env remaining

/-- Write the pieces in order. -/
def writeAll (s : EncryptedReadSpool) : List Bytes → Except TransactionError EncryptedReadSpool
  | [] => .ok s
  | plaintext :: rest => do
    let s ← s.write env plaintext
    s.writeAll rest

def intoBody (s : EncryptedReadSpool) (syncFailure : Option String) :
    Except TransactionError Replay := do
  let s ← s.flushPending env
  match s.file, syncFailure with
  | none, _ => .error .finished
  | some _, some e => .error (.spool e)
  | some file, none => .ok ⟨file, s.key, s.bytes, s.log⟩

end EncryptedReadSpool

/-! ### The reader -/

inductive ReplayError where
  | io (error : ReadError)
  | other (message : String)
deriving DecidableEq

/-- `read_exact`. -/
def readOrFail (s : Source) (n : Nat) : Except ReplayError (Bytes × Source) :=
  (s.readExact n).mapError .io

section Reader

variable [Aead] (key : Key)

/-- One round of `stream_decrypted_file`: the plaintext of a frame, or `none` at the end of the
file. -/
def nextFrame (chunkNumber : Nat) (file : Source) : Except ReplayError (Option (Bytes × Source)) :=
  -- `read` returns no byte only where the file ends
  if file.bytes = [] ∧ file.broken = false then .ok none
  else do
    let (length, file) ← readOrFail file 4
    if fromBe length > plaintextFrameBytes then
      .error (.other "transformed-read spool frame exceeds the encrypted staging bound")
    else
      let (nonce, file) ← readOrFail file nonceBytes
      let (ciphertext, file) ← readOrFail file (satAdd 64 (fromBe length) 16)
      match Aead.decrypt key nonce ciphertext (be64 chunkNumber) with
      | none => .error (.other "transformed-read spool authentication failed")
      | some plaintext => .ok (some (plaintext, file))

/-- How a replay ends. -/
inductive Ending where
  | ended
  | cancelled
  | failed (error : ReplayError)

/-- **The replay of a file from a frame on delivers the chunks**, and ends as told.  It may be
cancelled before each frame, and at each frame the receiver may be gone. -/
inductive Delivers : Nat → Source → List Bytes → Ending → Prop where
  | cancelled (n : Nat) (file : Source) : Delivers n file [] .cancelled
  | ended {n : Nat} {file : Source} (h : nextFrame key n file = .ok none) :
    Delivers n file [] .ended
  | failed {n : Nat} {file : Source} {e : ReplayError} (h : nextFrame key n file = .error e) :
      Delivers n file [] (.failed e)
  | dropped {n : Nat} {file file' : Source} {plaintext : Bytes}
      (h : nextFrame key n file = .ok (some (plaintext, file'))) : Delivers n file [] .cancelled
  | frame {n : Nat} {file file' : Source} {plaintext : Bytes} {rest : List Bytes} {ending : Ending}
      (h : nextFrame key n file = .ok (some (plaintext, file')))
      (t : Delivers (satAdd 64 n 1) file' rest ending) : Delivers n file (plaintext :: rest) ending

end Reader

end S4.Reads
