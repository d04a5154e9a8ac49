import S4.Lib.Frames
import S4.Lib.Text
import S4.Staging.Types

/-!
# Staging — Artifacts

The encrypted file of a part (`multipart_staging.rs`).  `EncryptedPartWriter` writes an envelope
header and then a frame for each chunk that it is given: the length of the ciphertext, a nonce, and
the ciphertext under a key that the header carries wrapped.  `EncryptedPartReader` checks the header
against the upload and the part, and returns the chunks one by one; each frame is bound to its place
by associated data.

What the gateway links is given by `Primitives` and by an AEAD; keys and nonces are drawn outside.
A call whose file operations fail is given the error (`failure`).
-/

namespace S4.Staging

open Lib

abbrev Bytes : Type := List UInt8

def magic : Bytes := ascii "S4MP10" ++ [0]
def nonceLen : Nat := 12
def keyLen : Nat := 32
def maxArtifactHeaderBytes : Nat := 64 * 1024
def maxEncryptedFrameBytes : Nat := 8 * 1024 * 1024 + 16

abbrev Nonce : Type := { bytes : Bytes // bytes.length = nonceLen }
abbrev Key : Type := { bytes : Bytes // bytes.length = keyLen }

/-- The errors of the artifacts, beside those of the repository. -/
inductive ArtifactError where
  | unavailable
  | crypto (message : String)
  | staging (error : StagingError)
deriving DecidableEq

/-- `io_error`. -/
def ioError : ArtifactError := .staging (.persistence "S3 backend response body failed")

structure ArtifactHeader where
  /-- In base64. -/
  wrappedDek : Bytes
  tenantId : String
  uploadId : String
  partNumber : Nat
  attempt : Nat
  /-- In hexadecimal. -/
  metadataDigest : Bytes
deriving DecidableEq

/-- The functions of the libraries that the gateway links. -/
class Primitives where
  sha256 : Bytes → Bytes
  md5 : Bytes → Bytes
  base64Encode : Bytes → Bytes
  base64Decode : Bytes → Option Bytes
  /-- `serde_json::to_vec` of a snapshot. -/
  snapshotJson : MultipartSnapshot → Bytes
  /-- `serde_json::to_vec` of a header. -/
  headerJson : ArtifactHeader → Bytes
  /-- `serde_json::from_slice` of a header. -/
  parseHeader : Bytes → Option ArtifactHeader

/-- Wraps and unwraps a data key; a wrap draws a nonce. -/
structure KeyWrapping where
  wrap : Nonce → Bytes → Except String Bytes
  unwrap : Bytes → Except String Bytes
  isDurable : Bool

/-- The UTF-8 bytes of a text. -/
def utf8 (s : String) : Bytes := s.toUTF8.data.toList

/-- The associated data of a frame. -/
def artifactAad (header : ArtifactHeader) (chunk : Nat) : Bytes :=
  [0].intercalate [ascii "s4.multipart.stage.v1", utf8 header.tenantId, utf8 header.uploadId,
    utf8 (toString header.partNumber), utf8 (toString header.attempt), utf8 (toString chunk),
    header.metadataDigest]

/-- The digest that binds an artifact to the snapshot of its upload. -/
def metadataDigest [Primitives] (snapshot : MultipartSnapshot) : Bytes :=
  hexEncode (Primitives.sha256 (Primitives.snapshotJson snapshot))

/-! ### Keys -/

section Keys

variable [Aead]

/-- The key encryption key of the operator. -/
structure LocalKeyWrapping where
  kek : Key
  durable : Bool

def LocalKeyWrapping.toKeyWrapping (self : LocalKeyWrapping) : KeyWrapping where
  wrap nonce dek := match Aead.encrypt self.kek nonce dek [] with
    | none => .error "DEK wrap failed"
    | some ct => .ok (nonce ++ ct)
  unwrap wrapped :=
    if wrapped.length < nonceLen then .error "wrapped DEK too short"
    else match Aead.decrypt self.kek (wrapped.take nonceLen) (wrapped.drop nonceLen) [] with
      | none => .error "DEK unwrap failed"
      | some dek => .ok dek
  isDurable := self.durable

/-- A wrapping that unwraps what it has wrapped. -/
def KeyWrapping.Opens (wrapping : KeyWrapping) : Prop :=
  ∀ nonce dek wrapped, wrapping.wrap nonce dek = .ok wrapped → wrapping.unwrap wrapped = .ok dek

/-- **The local wrapping opens.** -/
theorem LocalKeyWrapping.opens [LawfulAead] (self : LocalKeyWrapping) :
    self.toKeyWrapping.Opens := by
  intro nonce dek wrapped h
  simp only [toKeyWrapping] at h ⊢
  split at h
  · cases h
  next ct hct =>
  cases h
  have hlen : ¬ (nonce.val ++ ct).length < nonceLen := by
    rw [List.length_append, nonce.property]
    omega
  rw [if_neg hlen, List.take_left' nonce.property, List.drop_left' nonce.property,
    LawfulAead.decrypt_encrypt hct]

end Keys

/-! ### The writer -/

/-- What the writer has written, and what its digests have absorbed. -/
structure EncryptedPartWriter where
  file : Bytes
  dek : Key
  header : ArtifactHeader
  chunk : Nat
  sizeBytes : Nat
  maxBytes : Nat
  sha256 : Bytes
  md5 : Bytes

structure FinishedPart where
  /-- The content of the file at `path`. -/
  artifact : Bytes
  sizeBytes : Nat
  checksumSha256 : String
  etag : String
deriving DecidableEq

/-- A hexadecimal text. -/
def hexText (bytes : Bytes) : String :=
  String.ofList ((hexEncode bytes).map fun digit => Char.ofNat digit.toNat)

/-- The entity tag of an MD5. -/
def quotedEtag (md5 : Bytes) : String := "\"" ++ hexText md5 ++ "\""

namespace EncryptedPartWriter

variable [Primitives]

/-- What `start` draws, and the failures of its file operations. -/
structure StartEnv where
  dek : Key
  wrapNonce : Nonce
  directoryFailure : Option ArtifactError
  fileFailure : Option ArtifactError

/-- The header of an artifact. -/
def headerOf (wrapped : Bytes) (identity : MultipartIdentity) (partNumber attempt : Nat)
    (metadata : MultipartSnapshot) : ArtifactHeader where
  wrappedDek := Primitives.base64Encode wrapped
  tenantId := identity.tenantId
  uploadId := identity.uploadId
  partNumber := partNumber
  attempt := attempt
  metadataDigest := metadataDigest metadata

/-- `begin`. -/
def start (env : StartEnv) (identity : MultipartIdentity) (partNumber attempt : Nat)
    (metadata : MultipartSnapshot) (maxBytes : Nat) (wrapping : KeyWrapping) :
    Except ArtifactError EncryptedPartWriter :=
  if wrapping.isDurable = false then .error .unavailable
  else match env.directoryFailure with
    | some error => .error error
    | none => match wrapping.wrap env.wrapNonce env.dek with
        | .error message => .error (.crypto message)
        | .ok wrapped =>
          let header := headerOf wrapped identity partNumber attempt metadata
          let encoded := Primitives.headerJson header
          match env.fileFailure with
          | some error => .error error
          | none => .ok {
              file := magic ++ (be32 encoded.length ++ encoded)
              dek := env.dek
              header
              chunk := 0
              sizeBytes := 0
              maxBytes
              sha256 := []
              md5 := [] }

variable [Aead]

/-- Write a chunk as a frame.  The counter of the chunks wraps. -/
def write (w : EncryptedPartWriter) (nonce : Nonce) (failure : Option ArtifactError)
    (plaintext : Bytes) : Except ArtifactError EncryptedPartWriter :=
  match checkedAdd 64 w.sizeBytes plaintext.length with
  | none => .error (.staging .quotaExceeded)
  | some sizeBytes =>
    if sizeBytes > w.maxBytes then .error (.staging .quotaExceeded)
    else match Aead.encrypt w.dek nonce plaintext (artifactAad w.header w.chunk) with
      | none => .error (.crypto "part encryption failed")
      | some ciphertext => match failure with
          | some error => .error error
          | none => .ok { w with
              file := w.file ++ (be32 ciphertext.length ++ (nonce ++ ciphertext))
              sizeBytes
              sha256 := w.sha256 ++ plaintext
              md5 := w.md5 ++ plaintext
              chunk := (w.chunk + 1) % 2 ^ 64 }

def finish (w : EncryptedPartWriter) (failure : Option ArtifactError) :
    Except ArtifactError FinishedPart :=
  match failure with
  | some error => .error error
  | none => .ok {
      artifact := w.file
      sizeBytes := w.sizeBytes
      checksumSha256 := hexText (Primitives.sha256 w.sha256)
      etag := quotedEtag (Primitives.md5 w.md5) }

/-- Write the chunks in order, each with its nonce. -/
def writeAll (w : EncryptedPartWriter) :
    List (Nonce × Option ArtifactError × Bytes) → Except ArtifactError EncryptedPartWriter
  | [] => .ok w
  | (nonce, failure, plaintext) :: rest => do
    let w ← w.write nonce failure plaintext
    w.writeAll rest

end EncryptedPartWriter

/-! ### The reader -/

structure EncryptedPartReader where
  reader : Source
  cipher : Key
  header : ArtifactHeader
  chunk : Nat
  finished : Bool

namespace EncryptedPartReader

/-- A read whose failure is an error of the stream. -/
def readOrFail (reader : Source) (n : Nat) : Except ArtifactError (Bytes × Source) :=
  match reader.readExact n with
  | .error _ => .error ioError
  | .ok e => .ok e

/-- `Aes256Gcm::new_from_slice`. -/
def newFromSlice (dek : Bytes) : Except ArtifactError Key :=
  if h : dek.length = keyLen then .ok ⟨dek, h⟩ else .error (.crypto "Invalid Length")

/-- The header is that of the part, in its upload. -/
def matchesPart [Primitives] (header : ArtifactHeader) (identity : MultipartIdentity)
    (part : MultipartPart) (snapshot : MultipartSnapshot) : Bool :=
  header.tenantId = identity.tenantId ∧ header.uploadId = identity.uploadId ∧
    header.partNumber = part.partNumber ∧ header.attempt = part.attempt ∧
    header.metadataDigest = metadataDigest snapshot

/-- `open`. -/
def openPart [Primitives] (reader : Source) (identity : MultipartIdentity) (part : MultipartPart)
    (snapshot : MultipartSnapshot) (wrapping : KeyWrapping) :
    Except ArtifactError EncryptedPartReader := do
  let (found, reader) ← readOrFail reader magic.length
  if found ≠ magic then .error (.crypto "invalid staging artifact magic")
  else
    let (length, reader) ← readOrFail reader 4
    if fromBe length = 0 ∨ fromBe length > maxArtifactHeaderBytes then
      .error (.crypto "invalid staging artifact header")
    else
      let (encoded, reader) ← readOrFail reader (fromBe length)
      match Primitives.parseHeader encoded with
      | none => .error (.crypto "invalid staging artifact header")
      | some header =>
        if matchesPart header identity part snapshot = false then
          .error (.crypto "staging artifact identity mismatch")
        else match Primitives.base64Decode header.wrappedDek with
          | none => .error (.crypto "invalid wrapped staging key")
          | some wrapped => match wrapping.unwrap wrapped with
              | .error message => .error (.crypto message)
              | .ok dek =>
                let cipher ← newFromSlice dek
                return { reader, cipher, header, chunk := 0, finished := false }

variable [Aead]

def nextChunk (r : EncryptedPartReader) :
    Except ArtifactError (Option Bytes × EncryptedPartReader) :=
  if r.finished then .ok (none, r)
  else match r.reader.readExact 4 with
    | .error .unexpectedEof => .ok (none, { r with finished := true })
    | .error .other => .error ioError
    | .ok (length, reader) =>
      if fromBe length < tagLen ∨ fromBe length > maxEncryptedFrameBytes then
        .error (.crypto "invalid staging artifact frame length")
      else do
        let (nonce, reader) ← readOrFail reader nonceLen
        let (ciphertext, reader) ← readOrFail reader (fromBe length)
        match Aead.decrypt r.cipher nonce ciphertext (artifactAad r.header r.chunk) with
        | none => .error (.crypto "staging artifact authentication failed")
        | some plaintext => match checkedAdd 64 r.chunk 1 with
            | none => .error (.crypto "staging artifact chunk overflow")
            | some chunk => .ok (some plaintext, { r with reader, chunk })

/-- **The calls of `nextChunk` return the chunks**, in order, and then `none`. -/
inductive Reads : EncryptedPartReader → List Bytes → Prop where
  | done {r r' : EncryptedPartReader} (h : r.nextChunk = .ok (none, r')) : Reads r []
  | more {r r' : EncryptedPartReader} {plaintext : Bytes} {rest : List Bytes}
      (h : r.nextChunk = .ok (some plaintext, r')) (t : Reads r' rest) : Reads r (plaintext :: rest)

/-- What the calls of `nextChunk` return until one of them fails or returns `none`.  A chunk takes
bytes from the stream, so that there are no more of them than bytes. -/
def streamFor : Nat → EncryptedPartReader → List (Except ArtifactError Bytes)
  | 0,        _ => []
  | fuel + 1, r => match r.nextChunk with
      | .error e => [.error e]
      | .ok (none, _) => []
      | .ok (some plaintext, r) => .ok plaintext :: streamFor fuel r

def stream (r : EncryptedPartReader) : List (Except ArtifactError Bytes) :=
  streamFor (r.reader.bytes.length + 1) r

end EncryptedPartReader

end S4.Staging
