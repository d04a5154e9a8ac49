import S4.Integrity.Chunked

/-!
# Integrity — Verifier

The verifier of a request payload (`BodyVerifier`): `fromHeaders` chooses a mode from the headers
and the payload hash, `push` returns the decoded bytes of a piece of the body, and `finish` gives
the verdict.

A body that is not chunked is passed on and hashed.  A chunked body goes through
`AwsChunkedDecoder`.  Either may have a checksum, in a header or, for the trailer modes, in the
trailer that the headers declare.
-/

namespace S4.Integrity

open Lib

/-- The header fields in order, with names in lower case. -/
abbrev HeaderMap : Type := List (String × Bytes)

def HeaderMap.getAll (headers : HeaderMap) (name : String) : List Bytes :=
  headers.filterMap fun e => if e.1 = name then some e.2 else none

/-- `HeaderValue::to_str`: visible ASCII and tabs only. -/
def headerText (value : Bytes) : Option Bytes :=
  if value.all (fun b => (0x20 ≤ b ∧ b < 0x7f) ∨ b = 0x09) then some value else none

inductive PayloadState where
  /-- With the bytes that the hasher has absorbed. -/
  | fixed (sha256 : Option Bytes) (expectedSha256 : Option Bytes)
  | chunked (decoder : AwsChunkedDecoder)
  | finished
deriving DecidableEq

structure BodyVerifier where
  state : PayloadState
  checksum : Option ChecksumVerifier
  decodedBytes : Nat
deriving DecidableEq

def emptySigning : StreamingSigning where
  signingKey := List.replicate 32 0
  timestamp := []
  scope := []
  seedSignature := []

def requireAwsChunked (contentEncoding : Option Bytes) : Except IntegrityError Unit :=
  match contentEncoding with
  | none => .error .unsupportedContentEncoding
  | some value =>
    if eqIgnoreAsciiCase (trim value) (ascii "aws-chunked") then .ok ()
    else .error .unsupportedContentEncoding

def parseDecodedLength (value : Option Bytes) : Except IntegrityError Nat :=
  match value with
  | none => .error .missingDecodedLength
  | some value => match parseU64 value with
      | none => .error .invalidDecodedLength
      | some length => .ok length

def oneHeader (headers : HeaderMap) (name : String) : Except IntegrityError (Option Bytes) :=
  match headers.getAll name with
  | [] => .ok none
  | value :: later => match headerText value with
      | none => .error (.duplicateHeader name)
      | some value => if later ≠ [] then .error (.duplicateHeader name) else .ok (some value)

section Checksum

variable [Digests]

/-- The loop over the checksum headers. -/
def selectChecksum (headers : HeaderMap) (selected : Option (ChecksumAlgorithm × Bytes)) :
    List (ChecksumAlgorithm × String) → Except IntegrityError (Option (ChecksumAlgorithm × Bytes))
  | [] => .ok selected
  | (algorithm, name) :: rest => do
    match ← oneHeader headers name with
    | none => selectChecksum headers selected rest
    | some value =>
      if selected.isSome then .error .conflictingChecksum
      else
        let expected ← decodeChecksum algorithm value
        selectChecksum headers (some (algorithm, expected)) rest

/-- The trailer that the headers declare, in lower case. -/
def declaredTrailer (trailerDeclaration : Option Bytes) : Option Bytes :=
  ((trailerDeclaration.map trim).filter (· ≠ [])).map toAsciiLowercase

/-- The algorithm that the client library names must be the one in use. -/
def checkSdkAlgorithm (sdkAlgorithm : Option Bytes) (algorithm : Option ChecksumAlgorithm) :
    Except IntegrityError Unit :=
  match sdkAlgorithm, algorithm with
  | none,     _ => .ok ()
  | some _,   none => .error .missingChecksum
  | some sdk, some algorithm =>
    if eqIgnoreAsciiCase (trim sdk) (ascii algorithm.sdkName) then .ok ()
    else .error .conflictingChecksum

def checksumFromHeaders (headers : HeaderMap) (trailerDeclaration : Option Bytes) :
    Except IntegrityError (Option ChecksumVerifier × Option Bytes) := do
  let selected ← selectChecksum headers none ChecksumAlgorithm.all
  let declared := declaredTrailer trailerDeclaration
  if declared.any fun value => value.contains 0x2c ||
    (ChecksumAlgorithm.fromHeader value).isNone then
    .error .conflictingChecksum
  else if selected.isSome ∧ declared.isSome then .error .conflictingChecksum
  else
    let sdkAlgorithm ← oneHeader headers "x-amz-sdk-checksum-algorithm"
    let algorithm := (selected.map Prod.fst).or (declared.bind ChecksumAlgorithm.fromHeader)
    checkSdkAlgorithm sdkAlgorithm algorithm
    let verifier := algorithm.map fun algorithm =>
      { algorithm, state := [], expected := selected.map Prod.snd, trailerRequired :=
      declared.isSome }
    return (verifier, declared)

end Checksum

namespace BodyVerifier

variable [Digests]

/-- The state that `fromHeaders` chooses by the payload hash. -/
def payloadState (contentEncoding decodedLength trailerDeclaration declared : Option Bytes)
    (payloadHash : Bytes) (signing : Option StreamingSigning) (trustedTls : Bool) :
    Except IntegrityError PayloadState :=
  if payloadHash = ascii "UNSIGNED-PAYLOAD" then
    if trustedTls = false ∨ contentEncoding.isSome ∨ trailerDeclaration.isSome then
      .error .unsupportedPayloadMode
    else .ok (.fixed none none)
  else if payloadHash = ascii "STREAMING-AWS4-HMAC-SHA256-PAYLOAD" then do
    requireAwsChunked contentEncoding
    if trailerDeclaration.isSome then .error .conflictingChecksum
    else match signing with
      | none => .error .unsupportedPayloadMode
      | some signing =>
        let length ← parseDecodedLength decodedLength
        return .chunked (.new .signed length none signing)
  else if payloadHash = ascii "STREAMING-AWS4-HMAC-SHA256-PAYLOAD-TRAILER" then do
    requireAwsChunked contentEncoding
    match signing with
    | none => .error .unsupportedPayloadMode
    | some signing => match declared with
        | none => .error .missingTrailerDeclaration
        | some trailer =>
          let length ← parseDecodedLength decodedLength
          return .chunked (.new .signedTrailer length (some trailer) signing)
  else if payloadHash = ascii "STREAMING-UNSIGNED-PAYLOAD-TRAILER" then
    if trustedTls = false then .error .unsupportedPayloadMode
    else do
      requireAwsChunked contentEncoding
      match declared with
      | none => .error .missingTrailerDeclaration
      | some trailer =>
        let length ← parseDecodedLength decodedLength
        return .chunked (.new .unsignedTrailer length (some trailer) (signing.getD emptySigning))
  else if payloadHash.length = 64 then
    if contentEncoding.isSome ∨ trailerDeclaration.isSome then .error .unsupportedContentEncoding
    else do
      let expected ← parseSha256 payloadHash
      return .fixed (some []) (some expected)
  else .error .unsupportedPayloadMode

def fromHeaders (headers : HeaderMap) (payloadHash : Bytes) (signing : Option StreamingSigning)
    (trustedTls : Bool) : Except IntegrityError BodyVerifier := do
  let contentEncoding ← oneHeader headers "content-encoding"
  let decodedLength ← oneHeader headers "x-amz-decoded-content-length"
  let trailerDeclaration ← oneHeader headers "x-amz-trailer"
  let (checksum, declared) ← checksumFromHeaders headers trailerDeclaration
  let state ← payloadState contentEncoding decodedLength trailerDeclaration declared payloadHash
    signing trustedTls
  return { state, checksum, decodedBytes := 0 }

/-- The loop over the decoded chunks: count them and absorb them into the checksum. -/
def deliver (v : BodyVerifier) : List Bytes → Except IntegrityError BodyVerifier
  | [] => .ok v
  | chunk :: rest => match checkedAdd 64 v.decodedBytes chunk.length with
      | none => .error .decodedLengthMismatch
      | some decodedBytes =>
        deliver { v with decodedBytes, checksum := v.checksum.map (·.update chunk) } rest

def push (v : BodyVerifier) (bytes : Bytes) :
    Except IntegrityError (List Bytes × BodyVerifier) := do
  let (decoded, state) ← match v.state with
    | .fixed sha256 expected => pure ([bytes], .fixed (sha256.map (· ++ bytes)) expected)
    | .chunked decoder => do
      let (decoded, decoder) ← decoder.push bytes
      pure (decoded, .chunked decoder)
    | .finished => .error .trailingData
  let v ← deliver { v with state } decoded
  return (decoded, v)

/-- Apply the checksum trailer of a chunked body. -/
def applyChunkedTrailer (v : BodyVerifier) : Except IntegrityError BodyVerifier :=
  match v.state with
  | .chunked decoder => match decoder.checksumTrailer with
      | none => .ok v
      | some (name, value) => match v.checksum with
          | none => .error .missingChecksum
          | some checksum => do
            let checksum ← checksum.setTrailer name value
            return { v with checksum := some checksum }
  | _ => .ok v

def finish (v : BodyVerifier) : Except IntegrityError Nat := do
  let v ← v.applyChunkedTrailer
  match v.state with
  | .fixed (some sha256) (some expected) =>
    if constantTimeEq (Digests.sha256 sha256) expected then pure ()
    else .error .payloadHashMismatch
  | .fixed _ _ => pure ()
  | .chunked decoder => decoder.finish
  | .finished => .error .trailingData
  match v.checksum with
  | none => pure ()
  | some checksum => checksum.finish
  return v.decodedBytes

/-- Push the pieces of a body. -/
def pushAll (v : BodyVerifier) : List Bytes → Except IntegrityError (List Bytes × BodyVerifier)
  | [] => .ok ([], v)
  | bytes :: pieces => do
    let (decoded, v) ← v.push bytes
    let (later, v) ← pushAll v pieces
    return (decoded ++ later, v)

/-- **The verdict on a body** that arrives in the given pieces: the emitted bytes and their number.
-/
def verify (v : BodyVerifier) (pieces : List Bytes) : Except IntegrityError (Bytes × Nat) := do
  let (decoded, v) ← v.pushAll pieces
  let decodedBytes ← v.finish
  return (decoded.flatten, decodedBytes)

end BodyVerifier

end S4.Integrity
