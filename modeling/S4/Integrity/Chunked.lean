import S4.Integrity.Checksums
import S4.Lib.Word

/-!
# Integrity — Chunked

The incremental decoder of aws-chunked bodies (`AwsChunkedDecoder`).  A body is a sequence of
chunks, each a header line, data and a CRLF, up to a chunk of size zero; the trailer modes end in
trailer lines and an empty line, the signed mode in a CRLF.  In the signed modes each chunk carries
a signature over its data and the signature before it.

The decoder takes its input in pieces that may end anywhere; a call that fails leaves a decoder that
is not used again, and only the error is modelled.
-/

namespace S4.Integrity

open Lib

def emptySha256 : Bytes := ascii "e3b0c44298fc1c149afbf4c8996fb92427ae41e4649b934ca495991b7852b855"
def maxChunkHeaderBytes : Nat := 8 * 1024
def maxTrailerLineBytes : Nat := 8 * 1024
def maxTrailerBytes : Nat := 16 * 1024
def maxTrailers : Nat := 16
def maxChunks : Nat := 100000
def maxChunkBytes : Nat := 16 * 1024 * 1024

structure StreamingSigning where
  signingKey : Bytes
  timestamp : Bytes
  scope : Bytes
  seedSignature : Bytes
deriving DecidableEq

inductive StreamingMode where
  | signed
  | signedTrailer
  | unsignedTrailer
deriving DecidableEq

/-- The number in the CRLF states is how many of its two bytes have been read. -/
inductive DecodeState where
  | header
  | data
  | dataCrlf (matched : Nat)
  | finalCrlf (matched : Nat)
  | trailers
  | done
deriving DecidableEq

structure AwsChunkedDecoder where
  mode : StreamingMode
  signing : StreamingSigning
  previousSignature : Bytes
  state : DecodeState
  line : Bytes
  chunkRemaining : Nat
  /-- The bytes that the hasher of the chunk has absorbed. -/
  chunkHasher : Bytes
  expectedChunkSignature : Option Bytes
  expectedDecodedLength : Nat
  decodedLength : Nat
  chunks : Nat
  trailerBytes : Nat
  trailerCount : Nat
  declaredTrailer : Option Bytes
  checksumTrailer : Option (Bytes × Bytes)
  trailerSignature : Option Bytes
deriving DecidableEq

section Lines

/-- Read up to a CRLF.  A line may have `limit` bytes, and a `\r` behind them. -/
def takeLine (limit : Nat) (buffer : Bytes) :
    Bytes → Except IntegrityError (Option Bytes × Bytes × Bytes)
  | [] => .ok (none, buffer, [])
  | byte :: rest =>
    let buffer := buffer ++ [byte]
    if crlf <:+ buffer then .ok (some (buffer.take (buffer.length - 2)), [], rest)
    else if buffer.length > limit ∧ (buffer.length ≠ limit + 1 ∨ buffer.getLast? ≠ some 0x0d) then
      .error .oversizedFraming
    else takeLine limit buffer rest

/-- The byte that is expected next. -/
def crlfByte (matched : Nat) : UInt8 := if matched = 0 then 0x0d else 0x0a

/-- Read the rest of a CRLF of which `matched` bytes have been read. -/
def matchCrlf (message : String) (matched : Nat) : Bytes → Except IntegrityError (Nat × Bytes)
  | [] => .ok (matched, [])
  | byte :: rest =>
    if matched < 2 then
      if byte ≠ crlfByte matched then .error (.framing message)
      else matchCrlf message (matched + 1) rest
    else .ok (matched, byte :: rest)

end Lines

section Signatures

variable [Digests]

def hmacHex (key message : Bytes) : Bytes := hexEncode (Digests.hmacSha256 key message)

def constantTimeHexEq (left right : Bytes) : Bool :=
  match hexDecode left, hexDecode right with
  | some left, some right => constantTimeEq left right
  | _,         _ => false

/-- The text that the signature of a chunk signs. -/
def StreamingSigning.chunkToSign (signing : StreamingSigning) (previousSignature data : Bytes) :
    Bytes :=
  [0x0a].intercalate [ascii "AWS4-HMAC-SHA256-PAYLOAD", signing.timestamp, signing.scope,
    previousSignature, emptySha256, hexEncode (Digests.sha256 data)]

/-- The text that the signature of the trailers signs. -/
def StreamingSigning.trailerToSign (signing : StreamingSigning)
    (previousSignature name value : Bytes) : Bytes :=
  [0x0a].intercalate [ascii "AWS4-HMAC-SHA256-TRAILER", signing.timestamp, signing.scope,
    previousSignature, hexEncode (Digests.sha256 (name ++ ascii ":" ++ value ++ [0x0a]))]

end Signatures

namespace AwsChunkedDecoder

def new (mode : StreamingMode) (expectedDecodedLength : Nat) (declaredTrailer : Option Bytes)
    (signing : StreamingSigning) : AwsChunkedDecoder where
  previousSignature := signing.seedSignature
  mode := mode
  signing := signing
  state := .header
  line := []
  chunkRemaining := 0
  chunkHasher := []
  expectedChunkSignature := none
  expectedDecodedLength := expectedDecodedLength
  decodedLength := 0
  chunks := 0
  trailerBytes := 0
  trailerCount := 0
  declaredTrailer := declaredTrailer
  checksumTrailer := none
  trailerSignature := none

variable [Digests] (d : AwsChunkedDecoder)

/-- The signature of a chunk must be that of its data, behind the last one. -/
def verifyChunkSignature : Except IntegrityError AwsChunkedDecoder :=
  match d.expectedChunkSignature with
  | none => .ok d
  | some expected =>
    let actual := hmacHex d.signing.signingKey
      (d.signing.chunkToSign d.previousSignature d.chunkHasher)
    if constantTimeHexEq actual expected then
      .ok { d with expectedChunkSignature := none, previousSignature := expected }
    else .error .signatureMismatch

/-- The signature in a chunk header. -/
def signedExtension (extension : Option Bytes) : Except IntegrityError AwsChunkedDecoder :=
  match extension.bind (·.dropPrefix? (ascii "chunk-signature=")) with
  | none => .error (.framing "missing chunk signature")
  | some signature => do
    let _ ← parseSha256 signature
    return { d with expectedChunkSignature := some (toAsciiLowercase signature) }

/-- What follows the size in a chunk header: the signature, in the signed modes. -/
def chunkExtension (extension : Option Bytes) : Except IntegrityError AwsChunkedDecoder :=
  match d.mode with
  | .signed | .signedTrailer => d.signedExtension extension
  | .unsignedTrailer =>
    if extension.isSome then .error (.framing "unexpected chunk extension") else .ok d

/-- Go on to the data of the chunk, or behind the last chunk. -/
def beginChunk (size : Nat) : Except IntegrityError AwsChunkedDecoder :=
  let d := { d with chunkRemaining := size, chunkHasher := [] }
  if size = 0 then do
    let d ← d.verifyChunkSignature
    return { d with state := match d.mode with
      | .signed => .finalCrlf 0
      | .signedTrailer | .unsignedTrailer => .trailers }
  else match checkedAdd 64 d.decodedLength size with
    | none => .error .decodedLengthMismatch
    | some decodedLength =>
      if decodedLength > d.expectedDecodedLength then .error .decodedLengthMismatch
      else .ok { d with decodedLength, state := .data }

/-- The size in a chunk header, and the extension. -/
def splitHeader (line : Bytes) : Bytes × Option Bytes :=
  match splitOnce 0x3b line with
  | none => (line, none)
  | some (size, extension) => (size, some extension)

def startChunk (line : Bytes) : Except IntegrityError AwsChunkedDecoder :=
  let size := (splitHeader line).1
  if Digests.utf8 line = false then .error (.framing "non-ASCII header")
  else if size = [] ∨ size.length > 16 ∨ size.all isAsciiHexdigit = false then
    .error (.framing "invalid chunk size")
  else if fromHex size > maxChunkBytes then .error .oversizedFraming
  else if d.chunks + 1 > maxChunks then .error .oversizedFraming
  else do
    let d ← chunkExtension { d with chunks := d.chunks + 1 } (splitHeader line).2
    d.beginChunk (fromHex size)

def parseTrailer (line : Bytes) : Except IntegrityError AwsChunkedDecoder :=
  let d := { d with trailerCount := d.trailerCount + 1 }
  if d.trailerCount > maxTrailers then .error .oversizedFraming
  else if Digests.utf8 line = false then .error (.framing "non-ASCII trailer")
  else match splitOnce 0x3a line with
    | none => .error (.framing "malformed trailer")
    | some (name, value) =>
      if name = [] ∨ name.all (fun b => (0x61 ≤ b ∧ b ≤ 0x7a) ∨ isAsciiDigit b ∨ b = 0x2d) = false ∨
          trim value ≠ value then
        .error (.framing "non-canonical trailer")
      else if name = ascii "x-amz-trailer-signature" then
        if d.trailerSignature.isSome ∨ d.checksumTrailer.isNone then .error (.duplicateTrailer name)
        else do
          let _ ← parseSha256 value
          return { d with trailerSignature := some (toAsciiLowercase value) }
      else if d.checksumTrailer.isSome then .error (.duplicateTrailer name)
      else if d.declaredTrailer ≠ some name then .error .conflictingChecksum
      else .ok { d with checksumTrailer := some (name, value) }

def verifyTrailers : Except IntegrityError Unit :=
  match d.checksumTrailer with
  | none => .error .missingChecksum
  | some (name, value) =>
    if d.mode = .signedTrailer then
      match d.trailerSignature with
      | none => .error (.framing "missing trailer signature")
      | some expected =>
        let actual := hmacHex d.signing.signingKey
          (d.signing.trailerToSign d.previousSignature name value)
        if constantTimeHexEq actual expected then .ok () else .error .signatureMismatch
    else if d.trailerSignature.isSome then .error (.framing "unexpected trailer signature")
    else .ok ()

/-- A complete trailer line; the empty one ends the body. -/
def trailerLine (line : Bytes) : Except IntegrityError AwsChunkedDecoder :=
  match checkedAdd 64 d.trailerBytes (line.length + 2) with
  | none => .error .oversizedFraming
  | some trailerBytes =>
    let d := { d with trailerBytes }
    if trailerBytes > maxTrailerBytes then .error .oversizedFraming
    else if line = [] then do
      d.verifyTrailers
      return { d with state := .done }
    else d.parseTrailer line

/-- One iteration of the loop in `push`: what it puts out, and the input that is left. -/
def step (input : Bytes) : Except IntegrityError (List Bytes × AwsChunkedDecoder × Bytes) :=
  match d.state with
  | .header => do
    let (line, buffer, input) ← takeLine maxChunkHeaderBytes d.line input
    match line with
    | none => return ([], { d with line := buffer }, input)
    | some line =>
      let d ← startChunk { d with line := buffer } line
      return ([], d, input)
  | .data => do
    let take := min d.chunkRemaining input.length
    let bytes := input.take take
    let d := { d with
      chunkHasher := d.chunkHasher ++ bytes
      chunkRemaining := d.chunkRemaining - take }
    let output := if bytes = [] then [] else [bytes]
    if d.chunkRemaining = 0 then
      let d ← d.verifyChunkSignature
      return (output, { d with state := .dataCrlf 0 }, input.drop take)
    else return (output, d, input.drop take)
  | .dataCrlf matched => do
    let (matched, input) ← matchCrlf "chunk data lacks CRLF" matched input
    return ([], { d with state := if matched = 2 then .header else .dataCrlf matched }, input)
  | .finalCrlf matched => do
    let (matched, input) ← matchCrlf "final chunk lacks CRLF" matched input
    if matched = 2 ∧ input ≠ [] then .error .trailingData
    else return ([], { d with state := if matched = 2 then .done else .finalCrlf matched }, input)
  | .trailers => do
    let (line, buffer, input) ← takeLine maxTrailerLineBytes d.line input
    match line with
    | none => return ([], { d with line := buffer }, input)
    | some line =>
      let d ← trailerLine { d with line := buffer } line
      if d.state = .done ∧ input ≠ [] then .error .trailingData
      else return ([], d, input)
  | .done => .error .trailingData

/-- The loop of `push`.  Every iteration reads a byte, so it ends within as many iterations as there
are bytes. -/
def loop : Nat → AwsChunkedDecoder → Bytes → Except IntegrityError (List Bytes × AwsChunkedDecoder)
  | 0,        d, _ => .ok ([], d)
  | fuel + 1, d, input =>
    if input = [] then .ok ([], d)
    else do
      let (output, d, input) ← d.step input
      let (later, d) ← loop fuel d input
      return (output ++ later, d)

def push (input : Bytes) : Except IntegrityError (List Bytes × AwsChunkedDecoder) :=
  if d.state = .done ∧ input ≠ [] then .error .trailingData
  else loop input.length d input

def finish : Except IntegrityError Unit :=
  if d.state ≠ .done then .error .truncated
  else if d.decodedLength ≠ d.expectedDecodedLength then .error .decodedLengthMismatch
  else .ok ()

end AwsChunkedDecoder

end S4.Integrity
