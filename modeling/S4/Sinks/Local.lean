import S4.Lib.KeyMap
import S4.Lib.Prog
import S4.Lib.Word
import S4.Transaction.Types

/-!
# Sinks — Local

The two sinks that keep the object to themselves until it is complete: `MemorySinkTransaction` in a
buffer, from which the development store is written, and `CompatibilitySpoolTransaction` in a file,
which is then uploaded.  Both are programs over their effects; the running hash is the bytes it has
been fed.
-/

namespace S4.Sinks

open Lib
open Managed (Sha256 hexEncode)
open Transaction (Bytes SinkCommitState StoredObjectMeta TransactionError)

/-! ### The memory sink -/

structure StoredObject where
  data : Bytes
  contentType : String
  etag : String
deriving DecidableEq

/-- The objects of a `MemoryStore`, by bucket and key. -/
abbrev MemoryStore : Type := KeyMap String StoredObject

def MemoryStore.objectKey (bucket key : String) : String := bucket ++ "/" ++ key

inductive MemoryEffect where
  | put (bucket key : String) (data : Bytes) (contentType : String)

@[reducible] def MemoryAnswer : MemoryEffect → Type
  | .put _ _ _ _ => StoredObject

/-- The entity tag of an object that is put is a new identifier, in quotes. -/
def MemoryEffect.Performs : (e : MemoryEffect) → MemoryStore → MemoryAnswer e → MemoryStore → Prop
  | .put bucket key data contentType, store, r, store' =>
    (∃ id : String, r = ⟨data, contentType, "\"" ++ id ++ "\""⟩) ∧
      store' = store.insert (MemoryStore.objectKey bucket key) r

structure MemorySinkTransaction where
  bucket : String
  key : String
  contentType : String
  maxBytes : Nat
  buffer : Bytes
  hasher : Bytes
  outputVerified : Bool
  finished : Bool
deriving DecidableEq

abbrev MemoryMethod (α : Type) : Type :=
  Method MemoryEffect MemoryAnswer MemorySinkTransaction TransactionError α

namespace MemorySinkTransaction

def new (bucket key contentType : String) (maxBytes : Nat) :
    Except TransactionError MemorySinkTransaction :=
  if maxBytes = 0 then .error .outputMismatch
  else .ok ⟨bucket, key, contentType, maxBytes, [], [], false, false⟩

def commitState (sink : MemorySinkTransaction) : SinkCommitState :=
  if sink.finished then .committed else .preCommit

def write (chunk : Bytes) : MemoryMethod Unit := do
  let sink ← get
  if sink.finished then throw .finished
  else if sink.maxBytes < satAdd 64 sink.buffer.length chunk.length then throw .capacityExceeded
  else modify ({ · with
    hasher := sink.hasher ++ chunk
    outputVerified := false
    buffer := sink.buffer ++ chunk })

def verifyOutput [Sha256] (expectedSize : Nat) (expectedSha256 : String) : MemoryMethod Unit := do
  let sink ← get
  if sink.buffer.length ≠ expectedSize ∨
      Managed.hexEncode (Sha256.digest sink.hasher) ≠ expectedSha256 then throw .outputMismatch
  else modify ({ · with outputVerified := true })

def complete : MemoryMethod StoredObjectMeta := do
  let sink ← get
  if sink.finished then throw .finished
  else if !sink.outputVerified then throw .outputMismatch
  else
    modify ({ · with buffer := [] })
    let object ← Method.perform (MemoryEffect.put sink.bucket sink.key sink.buffer sink.contentType)
    modify ({ · with finished := true })
    return ⟨some object.etag, none, [], true⟩

def abort : MemoryMethod Unit :=
  modify ({ · with buffer := [], finished := true })

end MemorySinkTransaction

/-! ### The spool sink -/

structure SpoolQuota where
  maxBytes : Nat
  reservedBytes : Nat
deriving DecidableEq

namespace SpoolQuota

def reserveBytes (quota : SpoolQuota) (bytes : Nat) : Except TransactionError Unit × SpoolQuota :=
  match checkedAdd 64 quota.reservedBytes bytes with
  | none => (.error (.spool "spool quota overflow"), quota)
  | some next =>
    if quota.maxBytes < next then (.error .capacityExceeded, quota)
    else (.ok (), { quota with reservedBytes := next })

/-- `fetch_sub`, which wraps around. -/
def releaseBytes (quota : SpoolQuota) (bytes : Nat) : SpoolQuota :=
  { quota with reservedBytes := (quota.reservedBytes + (2 ^ 64 - bytes % 2 ^ 64)) % 2 ^ 64 }

end SpoolQuota

/-- An error of the file system, with its text. -/
inductive FileError where
  | notFound (text : String)
  | other (text : String)
deriving DecidableEq

def FileError.text : FileError → String
  | .notFound text => text
  | .other text => text

def spoolError {α : Type} : Except FileError α → Except TransactionError α :=
  Except.mapError fun error => .spool error.text

inductive SpoolEffect where
  | reserveBytes (bytes : Nat)
  | releaseBytes (bytes : Nat)
  | createDirAll
  | open
  | writeAll (chunk : Bytes)
  | flush
  | syncAll
  | uploadFile (contentLength : Nat)
  | removeFile

@[reducible] def SpoolAnswer : SpoolEffect → Type
  | .reserveBytes _ => Except TransactionError Unit
  | .releaseBytes _ => Unit
  | .createDirAll   => Except FileError Unit
  | .open           => Except FileError Unit
  | .writeAll _     => Except FileError Unit
  | .flush          => Except FileError Unit
  | .syncAll        => Except FileError Unit
  | .uploadFile _   => Except TransactionError StoredObjectMeta
  | .removeFile     => Except FileError Unit

/-- What the spool of one transaction stands on: its file, if it is there, whether it can be
removed, and the quota that it shares. -/
structure SpoolWorld where
  content : Option Bytes
  removable : Bool
  quota : SpoolQuota
deriving DecidableEq

/-- Removing the file goes well, also when it is gone already. -/
def SpoolWorld.removes (w : SpoolWorld) : Bool := w.content.isNone || w.removable

/-- What an effect does, and what it may answer.  A write that fails may have written a part. -/
def SpoolEffect.Performs : (e : SpoolEffect) → SpoolWorld → SpoolAnswer e → SpoolWorld → Prop
  | .reserveBytes bytes, w, r, w' =>
    r = (w.quota.reserveBytes bytes).1 ∧ w' = { w with quota := (w.quota.reserveBytes bytes).2 }
  | .releaseBytes bytes, w, _, w' => w' = { w with quota := w.quota.releaseBytes bytes }
  | .open, w, r, w' =>
    (r = .ok () ∧ w' = { w with content := some [] }) ∨ ((∃ error, r = .error error) ∧ w' = w)
  | .writeAll chunk, w, r, w' =>
    ∃ n, w' = { w with content := w.content.map (· ++ chunk.take n) } ∧
      (r = .ok () → chunk.length ≤ n)
  | .removeFile, w, r, w' =>
    match w.content with
    | none => (∃ text, r = .error (.notFound text)) ∧ w' = w
    | some _ =>
      if w.removable then r = .ok () ∧ w' = { w with content := none }
      else (∃ text, r = .error (.other text)) ∧ w' = w
  | .createDirAll, w, _, w' | .flush, w, _, w' | .syncAll, w, _, w' | .uploadFile _, w, _, w' =>
    w' = w

/-- A sink that spools its object to a file and uploads it whole. -/
structure CompatibilitySpoolTransaction where
  maxObjectBytes : Nat
  hasFile : Bool
  bytes : Nat
  reservedBytes : Nat
  outputHasher : Bytes
  outputVerified : Bool
  commitStarted : Bool
  finished : Bool
deriving DecidableEq

/-- A call on an object with state `σ` over a spool. -/
abbrev SpoolMethod (σ α : Type) : Type := Method SpoolEffect SpoolAnswer σ TransactionError α

namespace CompatibilitySpoolTransaction

/-- The transaction over a file that was just made. -/
def new (maxObjectBytes : Nat) : CompatibilitySpoolTransaction :=
  ⟨maxObjectBytes, true, 0, maxObjectBytes, [], false, false, false⟩

/-- The reservation is given back when the spool cannot be set up. -/
def orRelease {σ : Type} (maxObjectBytes : Nat) (answer : Except FileError Unit) :
    SpoolMethod σ Unit :=
  match answer with
  | .ok () => pure ()
  | .error error => do
    let _ ← Method.perform (SpoolEffect.releaseBytes maxObjectBytes)
    throw (.spool error.text)

def begin {σ : Type} (maxObjectBytes : Nat) (quota : SpoolQuota) :
    SpoolMethod σ CompatibilitySpoolTransaction := do
  if maxObjectBytes = 0 ∨ quota.maxBytes < maxObjectBytes then
    throw (.spool "invalid compatibility spool object limit")
  else
    Method.ofExcept (← Method.perform (SpoolEffect.reserveBytes maxObjectBytes))
    orRelease maxObjectBytes (← Method.perform SpoolEffect.createDirAll)
    orRelease maxObjectBytes (← Method.perform SpoolEffect.open)
    return new maxObjectBytes

def commitState (sink : CompatibilitySpoolTransaction) : SinkCommitState :=
  if sink.finished then .committed
  else if sink.commitStarted then .commitUnknown
  else .preCommit

/-- A file that is gone already counts as removed. -/
def removeFile : SpoolMethod CompatibilitySpoolTransaction Unit := do
  modify ({ · with hasFile := false })
  match ← Method.perform SpoolEffect.removeFile with
  | .ok () => pure ()
  | .error (.notFound _) => pure ()
  | .error (.other text) => throw (.spool text)

/-- The end of a transaction: its file is removed and its reservation given back. -/
def finish : SpoolMethod CompatibilitySpoolTransaction Unit := do
  removeFile
  let _ ← Method.perform (SpoolEffect.releaseBytes (← get).reservedBytes)
  modify ({ · with reservedBytes := 0, bytes := 0, finished := true })

def write (chunk : Bytes) : SpoolMethod CompatibilitySpoolTransaction Unit := do
  let sink ← get
  if sink.finished then throw .finished
  else match checkedAdd 64 sink.bytes chunk.length with
    | none => throw (.spool "spool size overflow")
    | some next =>
      if sink.maxObjectBytes < next then throw .capacityExceeded
      else if !sink.hasFile then throw .finished
      else
        Method.ofExcept (spoolError (← Method.perform (SpoolEffect.writeAll chunk)))
        modify ({ · with
          bytes := next
          outputHasher := sink.outputHasher ++ chunk
          outputVerified := false })

def verifyOutput [Sha256] (expectedSize : Nat) (expectedSha256 : String) :
    SpoolMethod CompatibilitySpoolTransaction Unit := do
  let sink ← get
  if sink.bytes ≠ expectedSize ∨
      Managed.hexEncode (Sha256.digest sink.outputHasher) ≠ expectedSha256
        then throw .outputMismatch
  else modify ({ · with outputVerified := true })

/-- A verified file is synced and uploaded; then the transaction ends. -/
def complete : SpoolMethod CompatibilitySpoolTransaction StoredObjectMeta := do
  let sink ← get
  if sink.finished then throw .finished
  else if !sink.outputVerified then throw .outputMismatch
  else if !sink.hasFile then throw .finished
  else
    Method.ofExcept (spoolError (← Method.perform SpoolEffect.flush))
    Method.ofExcept (spoolError (← Method.perform SpoolEffect.syncAll))
    modify ({ · with commitStarted := true })
    let result ← Method.ofExcept (← Method.perform (SpoolEffect.uploadFile sink.bytes))
    finish
    return result

def abort : SpoolMethod CompatibilitySpoolTransaction Unit := do
  if (← get).finished then pure ()
  else finish

end CompatibilitySpoolTransaction

end S4.Sinks
