import S4.Integrity.Splits

/-!
# Integrity — Soundness

What the verifier has checked when it accepts a chunked body.  A `Framing` is an aws-chunked body as
it is written: data chunks, a chunk of size zero, and trailers.  While the decoder reads, what it
has read is a beginning of such a body (`Parsed`, kept by every byte: `parsed_feed`); when it is
done, it has read one framing and nothing else.  An accepted body has its signatures chained from
the seed, its declared length, and the declared checksum in its trailer (`verify_sound`).
-/

namespace S4.Integrity

open Lib List Option BodyVerifier

/-! ### Bodies as they are written -/

/-- A chunk: its size as written, its signature and its data. -/
structure Chunk where
  size : Bytes
  signature : Option Bytes
  data : Bytes

namespace Chunk

def head (c : Chunk) : Bytes :=
  match c.signature with
  | none => c.size
  | some signature => c.size ++ ascii ";" ++ ascii "chunk-signature=" ++ signature

def wire (c : Chunk) : Bytes := c.head ++ crlf ++ c.data ++ crlf

/-- The header line is well formed: a hexadecimal size, and a signature in the signed modes. -/
structure HeadFormed (mode : StreamingMode) (c : Chunk) : Prop where
  digits : c.size ≠ [] ∧ c.size.length ≤ 16 ∧ c.size.all isAsciiHexdigit = true
  unsigned : mode = .unsignedTrailer → c.signature = none
  signed : mode ≠ .unsignedTrailer → ∃ signature, c.signature = some signature ∧
    signature.length = 64 ∧ signature.all isAsciiHexdigit = true

/-- A chunk has as many bytes as its header says. -/
structure WellFormed (mode : StreamingMode) (c : Chunk) : Prop extends HeadFormed mode c where
  length : c.data.length = fromHex c.size

end Chunk

def trailerWire (trailer : Bytes × Bytes) : Bytes := trailer.1 ++ ascii ":" ++ trailer.2 ++ crlf

/-- An aws-chunked body. -/
structure Framing where
  chunks : List Chunk
  last : Chunk
  trailers : List (Bytes × Bytes)

namespace Framing

def wire (mode : StreamingMode) (f : Framing) : Bytes :=
  f.chunks.flatMap Chunk.wire ++ f.last.head ++ crlf ++
    (match mode with
    | .signed => crlf
    | _ => f.trailers.flatMap trailerWire ++ crlf)

def body (f : Framing) : Bytes := f.chunks.flatMap Chunk.data

/-- Data chunks that are not empty, then an empty one. -/
structure WellFormed (mode : StreamingMode) (f : Framing) : Prop where
  chunks : ∀ c ∈ f.chunks, c.WellFormed mode ∧ c.data ≠ []
  last : f.last.WellFormed mode ∧ f.last.data = []
  trailers : mode = .signed → f.trailers = []
  lines : ∀ trailer ∈ f.trailers, ¬ crlf <:+: trailer.1 ++ ascii ":" ++ trailer.2

end Framing

section Signatures

variable [Digests] {signing : StreamingSigning} {previous : Bytes} {chunks : List Chunk} {c : Chunk}

/-- The signature of a chunk behind the given signature. -/
def StreamingSigning.chunkSignature (signing : StreamingSigning) (previous data : Bytes) : Bytes :=
  hmacHex signing.signingKey (signing.chunkToSign previous data)

/-- The signature behind chunks. -/
def StreamingSigning.chain (signing : StreamingSigning) (previous : Bytes) (chunks : List Chunk) :
    Bytes :=
  chunks.foldl (fun previous c => signing.chunkSignature previous c.data) previous

/-- Every chunk carries the signature of its data behind the chunks before it. -/
def StreamingSigning.Signs (signing : StreamingSigning) : Bytes → List Chunk → Prop
  | _,        [] => True
  | previous, c :: cs =>
    c.signature.map toAsciiLowercase = some (signing.chunkSignature previous c.data) ∧
      signing.Signs (signing.chunkSignature previous c.data) cs

theorem StreamingSigning.chain_append (signing : StreamingSigning) (previous : Bytes)
    (chunks : List Chunk) (c : Chunk) :
    signing.chain previous (chunks ++ [c]) =
      signing.chunkSignature (signing.chain previous chunks) c.data := by
  simp [chain]

theorem StreamingSigning.signs_append :
    signing.Signs previous (chunks ++ [c]) ↔ signing.Signs previous chunks ∧
      c.signature.map toAsciiLowercase =
        some (signing.chunkSignature (signing.chain previous chunks) c.data) := by
  induction chunks generalizing previous with
  | nil => simp [Signs, chain]
  | cons c' chunks ih =>
    simp only [cons_append, Signs, ih, and_assoc]
    rfl

/-- A signature that agrees with an HMAC is its text, in lower case. -/
theorem toAsciiLowercase_of_constantTimeHexEq {key message signature : Bytes}
    (h : constantTimeHexEq (hmacHex key message) (toAsciiLowercase signature) = true) :
    toAsciiLowercase signature = hmacHex key message := by
  rw [constantTimeHexEq, hmacHex, hexDecode_hexEncode] at h
  split at h
  · next left right hleft hright =>
    cases hleft
    rw [constantTimeEq_iff] at h
    rw [← h] at hright
    rw [hmacHex, ← toAsciiLowercase_of_hexDecode hright, toAsciiLowercase_twice]
  · cases h

end Signatures

/-! ### What a call that succeeds has checked -/

variable {value : Bytes} {extension : Option Bytes} {message : String} {state : Nat → DecodeState}
  {next : DecodeState} {matched : Nat} {name : Bytes} {length : Nat} {trailer : Option Bytes}

namespace AwsChunkedDecoder

variable {d d' : AwsChunkedDecoder} {line : Bytes}

theorem parseSha256_ok {bytes : Bytes} (h : parseSha256 value = .ok bytes) :
    value.length = 64 ∧ value.all isAsciiHexdigit = true := by
  rw [parseSha256, ite_error_eq_ok] at h
  simpa only [not_or, not_not, Bool.not_eq_false] using h.1

theorem splitHeader_eq (line : Bytes) :
    line = (splitHeader line).1 ++ ((splitHeader line).2.map (ascii ";" ++ ·)).getD [] := by
  rw [splitHeader]
  split
  · simp
  · next size extension hsplit =>
    have hsemicolon : ascii ";" = [0x3b] := rfl
    simpa [hsemicolon] using splitOnce_eq hsplit

theorem signedExtension_ok (h : d.signedExtension extension = .ok d') :
    ∃ s, extension = some (ascii "chunk-signature=" ++ s) ∧ s.length = 64 ∧
      s.all isAsciiHexdigit = true ∧
      d' = { d with expectedChunkSignature := some (toAsciiLowercase s) } := by
  rw [signedExtension] at h
  split at h
  · cases h
  · next signature hdrop =>
    obtain ⟨e, he, hprefix⟩ := bind_eq_some_iff.mp hdrop
    obtain ⟨p, hp, heq⟩ := dropPrefix?_eq_some_iff.mp hprefix
    obtain ⟨bytes, hparse, h⟩ := bind_eq_ok.mp h
    cases h
    refine ⟨signature, ?_, (parseSha256_ok hparse).1, (parseSha256_ok hparse).2, rfl⟩
    rw [he, hp, beq_iff_eq.mp heq]

/-- The extension is the signature of the mode. -/
theorem chunkExtension_ok (h : d.chunkExtension extension = .ok d') :
    ∃ signature : Option Bytes,
      (extension.map (ascii ";" ++ ·)).getD [] =
        (signature.map (ascii ";" ++ ascii "chunk-signature=" ++ ·)).getD [] ∧
      (d.mode = .unsignedTrailer → signature = none) ∧
      (d.mode ≠ .unsignedTrailer → ∃ s, signature = some s ∧ s.length = 64 ∧
        s.all isAsciiHexdigit = true) ∧
      d' = { d with
        expectedChunkSignature :=
          (signature.map toAsciiLowercase).or d.expectedChunkSignature } := by
  by_cases hmode : d.mode = .unsignedTrailer
  · simp only [chunkExtension, hmode, ite_error_eq_ok] at h
    obtain ⟨hnone, h⟩ := h
    cases h
    refine ⟨none, ?_, fun _ => rfl, fun hm => absurd hmode hm, rfl⟩
    rw [not_isSome_iff_eq_none.mp hnone]
    rfl
  · have hsigned : d.signedExtension extension = .ok d' := by
      rw [chunkExtension] at h
      split at h
      · exact h
      · exact h
      · next hm => exact absurd hm hmode
    obtain ⟨s, rfl, hlen, hhex, rfl⟩ := signedExtension_ok hsigned
    exact ⟨some s, by simp, fun hm => absurd hm hmode, fun _ => ⟨s, rfl, hlen, hhex⟩, rfl⟩

theorem feedLine_ok {limit : Nat} {byte : UInt8} {out : Bytes}
    {complete : AwsChunkedDecoder → Bytes → Except IntegrityError AwsChunkedDecoder}
    (hline : ¬ crlf <:+: d.line) (h : feedLine limit complete d byte = .ok (out, d')) :
    out = [] ∧ ((∃ line, d.line ++ [byte] = line ++ crlf ∧ ¬ crlf <:+: line ∧
        complete { d with line := [] } line = .ok d') ∨
      (¬ crlf <:+: d.line ++ [byte] ∧ d' = { d with line := d.line ++ [byte] })) := by
  rw [feedLine] at h
  split at h
  · next hend =>
    obtain ⟨line, hbuffer⟩ := hend
    have htake : (d.line ++ [byte]).take ((d.line ++ [byte]).length - 2) = line := by
      rw [← hbuffer, length_append]
      simp [crlf]
    rw [htake] at h
    have hpart : line <+: d.line := by
      have hlast := congrArg dropLast hbuffer
      rw [dropLast_concat, dropLast_append_of_ne_nil (by simp [crlf])] at hlast
      exact ⟨_, hlast⟩
    obtain ⟨d₁, hc, h⟩ := bind_eq_ok.mp h
    cases h
    exact ⟨rfl, .inl ⟨line, hbuffer.symm, fun hin => hline (hin.trans hpart.isInfix), hc⟩⟩
  · next hend =>
    cases (ite_error_eq_ok.mp h).2
    refine ⟨rfl, .inr ⟨fun hin => ?_, rfl⟩⟩
    rcases infix_concat_iff.mp hin with hsuffix | hin
    · exact hend hsuffix
    · exact hline hin

theorem feedCrlf_ok
    (hmatched : matched < 2) (h : feedCrlf message state next matched d byte = .ok (out, d')) :
    out = [] ∧ crlf.take matched ++ [byte] = crlf.take (matched + 1) ∧
      d' = { d with state := if matched + 1 = 2 then next else state (matched + 1) } := by
  rw [feedCrlf, ite_error_eq_ok] at h
  obtain ⟨hbyte, h⟩ := h
  cases h
  refine ⟨rfl, ?_, rfl⟩
  rw [not_not.mp hbyte]
  obtain rfl | rfl : matched = 0 ∨ matched = 1 := by omega
  · rfl
  · rfl

/-- What a decoder is made with. -/
def config (d : AwsChunkedDecoder) : StreamingMode × StreamingSigning × Nat × Option Bytes :=
  (d.mode, d.signing, d.expectedDecodedLength, d.declaredTrailer)

theorem config_feedCrlf (h : feedCrlf message state next matched d byte = .ok (out, d')) :
    d'.config = d.config := by
  rw [feedCrlf] at h
  split at h <;> cases h
  rfl

def signatureTrailer : Bytes := ascii "x-amz-trailer-signature"

/-- A trailer is taken: the signature behind the checksum, or the declared checksum. -/
def TakesTrailer (d : AwsChunkedDecoder) (name value : Bytes) (d' : AwsChunkedDecoder) : Prop :=
  (name = signatureTrailer ∧ d.trailerSignature = none ∧ d.checksumTrailer ≠ none ∧
    d' = { d with
      trailerCount := d.trailerCount + 1
      trailerSignature := some (toAsciiLowercase value) }) ∨
  (d.checksumTrailer = none ∧ d.declaredTrailer = some name ∧
    d' = { d with
      trailerCount := d.trailerCount + 1
      checksumTrailer := some (name, value) })

/-- The trailers that have been read: at most the declared one, and its signature behind it. -/
def TrailersRead (d : AwsChunkedDecoder) (trailers : List (Bytes × Bytes)) : Prop :=
  (∀ trailer ∈ trailers, ¬ crlf <:+: trailer.1 ++ ascii ":" ++ trailer.2) ∧
  match d.checksumTrailer, d.trailerSignature with
  | none,               none => trailers = []
  | none,               some _ => False
  | some (name, value), none => d.declaredTrailer = some name ∧ trailers = [(name, value)]
  | some (name, value), some signature => d.declaredTrailer = some name ∧
      ∃ text, toAsciiLowercase text = signature ∧
        trailers = [(name, value), (signatureTrailer, text)]

theorem TrailersRead.append {trailers : List (Bytes × Bytes)} (htrailers : d.TrailersRead trailers)
    (hline : ¬ crlf <:+: name ++ ascii ":" ++ value) (h : d.TakesTrailer name value d') :
    d'.TrailersRead (trailers ++ [(name, value)]) := by
  obtain ⟨hlines, htrailers⟩ := htrailers
  refine ⟨?_, ?_⟩
  · intro trailer htrailer
    rcases mem_append.mp htrailer with htrailer | htrailer
    · exact hlines trailer htrailer
    · rw [mem_singleton.mp htrailer]
      exact hline
  rcases h with ⟨rfl, hnone, hsome, rfl⟩ | ⟨hnone, hdeclared, rfl⟩
  · obtain ⟨⟨name', value'⟩, hchecksum⟩ := ne_none_iff_exists'.mp hsome
    simp only [hnone, hchecksum] at htrailers ⊢
    exact ⟨htrailers.1, value, rfl, by rw [htrailers.2]; rfl⟩
  · cases hsignature : d.trailerSignature with
    | none =>
      simp only [hnone, hsignature] at htrailers
      exact ⟨hdeclared, by rw [htrailers]; rfl⟩
    | some => simp only [hnone, hsignature] at htrailers

variable [Digests]

theorem startChunk_ok (h : d.startChunk line = .ok d') : ∃ c : Chunk, c.data = [] ∧ line = c.head ∧
    c.HeadFormed d.mode ∧
    beginChunk { d with
      chunks := d.chunks + 1
      expectedChunkSignature := (c.signature.map toAsciiLowercase).or d.expectedChunkSignature }
      (fromHex c.size) = .ok d' := by
  simp only [startChunk, ite_error_eq_ok, bind_eq_ok] at h
  obtain ⟨-, hdigits, -, -, d₁, hext, h⟩ := h
  obtain ⟨signature, htext, hunsigned, hsigned, rfl⟩ := chunkExtension_ok hext
  refine ⟨⟨(splitHeader line).1, signature, []⟩, rfl, ?_, ⟨?_, hunsigned, hsigned⟩, h⟩
  · have hline := splitHeader_eq line
    rw [htext] at hline
    cases signature with
    | none => simpa [Chunk.head] using hline
    | some => simpa [Chunk.head] using hline
  · simpa only [not_or, not_not, not_lt, Bool.not_eq_false] using hdigits

/-- Behind a verified chunk, the signature that the next one is chained to. -/
theorem verifyChunkSignature_ok (h : d.verifyChunkSignature = .ok d') :
    d' = { d with
      expectedChunkSignature := none
      previousSignature := d.expectedChunkSignature.getD d.previousSignature } ∧
    ∀ s, d.expectedChunkSignature = some s → constantTimeHexEq
      (hmacHex d.signing.signingKey (d.signing.chunkToSign d.previousSignature d.chunkHasher)) s =
        true := by
  simp only [verifyChunkSignature] at h
  split at h
  · next hnone =>
    cases h
    refine ⟨by rw [hnone, getD_none, ← hnone], fun s hs => ?_⟩
    rw [hnone] at hs
    cases hs
  · next expected hsome =>
    split at h
    · next heq =>
      cases h
      refine ⟨by rw [hsome, getD_some], fun s hs => ?_⟩
      rw [hsome] at hs
      cases hs
      exact heq
    · cases h

theorem beginChunk_ok {size : Nat} (h : d.beginChunk size = .ok d') :
    (size = 0 ∧ ∃ d₁, verifyChunkSignature { d with chunkRemaining := 0, chunkHasher := [] } =
    .ok d₁ ∧ d' = { d₁ with state := if d.mode = .signed then .finalCrlf 0 else .trailers }) ∨
    (size ≠ 0 ∧ d' = { d with
      chunkRemaining := size
      chunkHasher := []
      decodedLength := d.decodedLength + size
      state := .data }) := by
  simp only [beginChunk] at h
  split at h
  · next hzero =>
    subst hzero
    obtain ⟨d₁, hv, h⟩ := bind_eq_ok.mp h
    cases h
    have hmode : d₁.mode = d.mode := by rw [(verifyChunkSignature_ok hv).1]
    refine .inl ⟨rfl, d₁, hv, ?_⟩
    rw [← hmode]
    cases d₁.mode <;> rfl
  · next hsize =>
    split at h
    · cases h
    · next decodedLength hadd =>
      cases (ite_error_eq_ok.mp h).2
      rw [checkedAdd_eq_some hadd]
      exact .inr ⟨hsize, rfl⟩

theorem parseTrailer_ok (h : d.parseTrailer line = .ok d') :
    ∃ name value, line = name ++ ascii ":" ++ value ∧ d.TakesTrailer name value d' := by
  simp only [parseTrailer, ite_error_eq_ok] at h
  obtain ⟨-, -, h⟩ := h
  split at h
  · cases h
  next name value hsplit =>
  have hcolon : ascii ":" = [0x3a] := rfl
  refine ⟨name, value, by simpa [hcolon] using splitOnce_eq hsplit, ?_⟩
  replace h := (ite_error_eq_ok.mp h).2
  split at h
  · next hname =>
    obtain ⟨hpresent, h⟩ := ite_error_eq_ok.mp h
    obtain ⟨bytes, -, h⟩ := bind_eq_ok.mp h
    cases h
    rw [not_or, isNone_iff_eq_none] at hpresent
    exact .inl ⟨hname, not_isSome_iff_eq_none.mp hpresent.1, hpresent.2, rfl⟩
  · simp only [ite_error_eq_ok] at h
    obtain ⟨hchecksum, hdeclared, h⟩ := h
    cases h
    exact .inr ⟨not_isSome_iff_eq_none.mp hchecksum, not_not.mp hdeclared, rfl⟩

/-- A trailer line that is accepted, or the empty line behind verified trailers. -/
theorem trailerLine_ok (h : d.trailerLine line = .ok d') : ∃ trailerBytes,
    (line = [] ∧ verifyTrailers { d with trailerBytes } = .ok () ∧
      d' = { d with trailerBytes, state := .done }) ∨
    parseTrailer { d with trailerBytes } line = .ok d' := by
  simp only [trailerLine] at h
  split at h
  · cases h
  next trailerBytes _ =>
  refine ⟨trailerBytes, ?_⟩
  replace h := (ite_error_eq_ok.mp h).2
  split at h
  · next hnil =>
    obtain ⟨_, hv, h⟩ := bind_eq_ok.mp h
    cases h
    exact .inl ⟨hnil, hv, rfl⟩
  · exact .inr h

theorem verifyTrailers_ok (h : d.verifyTrailers = .ok ()) :
    ∃ name value, d.checksumTrailer = some (name, value) ∧
      (d.mode = .signedTrailer → ∃ s, d.trailerSignature = some s ∧ constantTimeHexEq
        (hmacHex d.signing.signingKey (d.signing.trailerToSign d.previousSignature name value)) s =
          true) ∧
      (d.mode ≠ .signedTrailer → d.trailerSignature = none) := by
  simp only [verifyTrailers] at h
  split at h
  · cases h
  next name value hchecksum =>
  refine ⟨name, value, hchecksum, ?_⟩
  split at h
  · next hmode =>
    split at h
    · cases h
    next expected hsignature =>
    split at h
    · next heq => exact ⟨fun _ => ⟨expected, hsignature, heq⟩, fun hm => absurd hmode hm⟩
    · cases h
  · next hmode =>
    have hnone := (ite_error_eq_ok.mp h).1
    exact ⟨fun hm => absurd hm hmode, fun _ => not_isSome_iff_eq_none.mp hnone⟩

/-! ### What has been read -/

/-- The signatures of the chunks are chained from the seed. -/
def Links (d : AwsChunkedDecoder) (chunks : List Chunk) : Prop :=
  d.mode ≠ .unsignedTrailer →
    d.signing.Signs d.signing.seedSignature chunks ∧
      d.previousSignature = d.signing.chain d.signing.seedSignature chunks

/-- Data chunks that have been read in full. -/
def Chunks (d : AwsChunkedDecoder) (chunks : List Chunk) : Prop :=
  ∀ c ∈ chunks, c.WellFormed d.mode ∧ c.data ≠ []

/-- **What has been read of a body**, by the state of the decoder. -/
def Parsed (d : AwsChunkedDecoder) (read out : Bytes) : Prop :=
  match d.state with
  | .header => ∃ chunks, d.Chunks chunks ∧ d.Links chunks ∧ d.expectedChunkSignature = none ∧
      d.TrailersRead [] ∧ ¬ crlf <:+: d.line ∧
      read = chunks.flatMap Chunk.wire ++ d.line ∧ out = chunks.flatMap Chunk.data ∧
      d.decodedLength = out.length
  | .data =>
    ∃ (chunks : List Chunk) (c : Chunk), d.Chunks chunks ∧ d.Links chunks ∧ c.HeadFormed d.mode ∧
      d.chunkHasher = c.data ∧ d.expectedChunkSignature = c.signature.map toAsciiLowercase ∧
      c.data.length + d.chunkRemaining = fromHex c.size ∧ 0 < d.chunkRemaining ∧
      d.TrailersRead [] ∧ d.line = [] ∧
      read = chunks.flatMap Chunk.wire ++ c.head ++ crlf ++ c.data ∧
      out = chunks.flatMap Chunk.data ++ c.data ∧ d.decodedLength = out.length + d.chunkRemaining
  | .dataCrlf matched => ∃ (chunks : List Chunk) (c : Chunk), d.Chunks (chunks ++ [c]) ∧
      d.Links (chunks ++ [c]) ∧ d.expectedChunkSignature = none ∧ d.TrailersRead [] ∧ d.line = [] ∧
        matched < 2 ∧
      read = chunks.flatMap Chunk.wire ++ c.head ++ crlf ++ c.data ++ crlf.take matched ∧
      out = (chunks ++ [c]).flatMap Chunk.data ∧ d.decodedLength = out.length
  | .finalCrlf matched =>
    d.mode = .signed ∧ ∃ (chunks : List Chunk) (last : Chunk), d.Chunks chunks ∧
      last.WellFormed d.mode ∧ last.data = [] ∧ d.Links (chunks ++ [last]) ∧ matched < 2 ∧
      read = chunks.flatMap Chunk.wire ++ last.head ++ crlf ++ crlf.take matched ∧
      out = chunks.flatMap Chunk.data ∧ d.decodedLength = out.length
  | .trailers => d.mode ≠ .signed ∧
    ∃ (chunks : List Chunk) (last : Chunk) (trailers : List (Bytes × Bytes)), d.Chunks chunks ∧
      last.WellFormed d.mode ∧ last.data = [] ∧ d.Links (chunks ++ [last]) ∧
      d.TrailersRead trailers ∧ ¬ crlf <:+: d.line ∧
      read = chunks.flatMap Chunk.wire ++ last.head ++ crlf ++ trailers.flatMap trailerWire ++
        d.line ∧
      out = chunks.flatMap Chunk.data ∧ d.decodedLength = out.length
  | .done => ∃ f : Framing, f.WellFormed d.mode ∧ d.Links (f.chunks ++ [f.last]) ∧
      (d.mode ≠ .signed → d.TrailersRead f.trailers ∧ d.verifyTrailers = .ok ()) ∧
      read = f.wire d.mode ∧ out = f.body ∧ d.decodedLength = out.length

/-! ### One byte more -/

section Feed

variable {read out out' : Bytes} {byte : UInt8} {chunks : List Chunk} {c : Chunk}

/-- A verified chunk is one more link. -/
theorem Links.append (hlinks : d.Links chunks) (hhead : c.HeadFormed d.mode)
    (hdata : d.chunkHasher = c.data)
    (hexpected : d.expectedChunkSignature = c.signature.map toAsciiLowercase)
    (h : d.verifyChunkSignature = .ok d') : d'.Links (chunks ++ [c]) := by
  obtain ⟨rfl, hcheck⟩ := verifyChunkSignature_ok h
  intro hmode
  obtain ⟨hsigns, hprevious⟩ := hlinks hmode
  obtain ⟨s, hs, -⟩ := hhead.signed hmode
  rw [hs, map_some] at hexpected
  have hsignature : toAsciiLowercase s =
      d.signing.chunkSignature (d.signing.chain d.signing.seedSignature chunks) c.data := by
    have := toAsciiLowercase_of_constantTimeHexEq (hcheck _ hexpected)
    rw [this, hprevious, hdata]
    rfl
  refine ⟨StreamingSigning.signs_append.mpr ⟨hsigns, by rw [hs, map_some, hsignature]⟩, ?_⟩
  rw [StreamingSigning.chain_append]
  simp [hexpected, hsignature]

theorem parsed_startChunk (hchunks : d.Chunks chunks) (hlinks : d.Links chunks)
    (hnone : d.expectedChunkSignature = none) (htrailers : d.TrailersRead []) (hline : d.line = [])
    (hlength : d.decodedLength = (chunks.flatMap Chunk.data).length)
    (h : d.startChunk line = .ok d') :
    Parsed d' (chunks.flatMap Chunk.wire ++ line ++ crlf) (chunks.flatMap Chunk.data) := by
  obtain ⟨c, hdata, rfl, hhead, hbegin⟩ := startChunk_ok h
  rw [hnone, or_none] at hbegin
  rcases beginChunk_ok hbegin with ⟨hzero, d₁, hv, rfl⟩ | ⟨hsize, rfl⟩
  · -- the last chunk
    have hwhole : c.WellFormed d.mode := ⟨hhead, by rw [hdata, hzero, length_nil]⟩
    have hlinks₁ : d₁.Links (chunks ++ [c]) := by
      refine Links.append (d := { d with
        chunks := d.chunks + 1, chunkRemaining := 0, chunkHasher := []
        expectedChunkSignature := c.signature.map toAsciiLowercase }) hlinks hhead hdata.symm rfl hv
    obtain ⟨rfl, -⟩ := verifyChunkSignature_ok hv
    by_cases hmode : d.mode = .signed
    · rw [Parsed]
      simp only [if_pos hmode]
      exact ⟨hmode, chunks, c, hchunks, hwhole, hdata, hlinks₁, by decide, by simp, rfl, hlength⟩
    · rw [Parsed]
      simp only [if_neg hmode]
      exact ⟨hmode, chunks, c, [], hchunks, hwhole, hdata, hlinks₁, htrailers,
        by rw [hline]; decide, by simp [hline], rfl, hlength⟩
  · refine ⟨chunks, c, hchunks, hlinks, hhead, hdata.symm, rfl, ?_, Nat.pos_of_ne_zero hsize,
      htrailers, hline, ?_, ?_, ?_⟩
    · simp [hdata]
    · rw [hdata, append_nil]
    · rw [hdata, append_nil]
    · simp [hlength]

section Step

variable (hparsed : d.Parsed read out) (h : feed d byte = .ok (out', d'))

include hparsed h

theorem parsed_header (hstate : d.state = .header) : d'.Parsed (read ++ [byte]) (out ++ out') := by
  simp only [Parsed, hstate] at hparsed
  obtain ⟨chunks, hchunks, hlinks, hnone, htrailers, hline, rfl, rfl, hlength⟩ := hparsed
  simp only [feed, hstate] at h
  obtain ⟨rfl, ⟨line, hbuffer, -, hstart⟩ | ⟨hopen, rfl⟩⟩ := feedLine_ok hline h
  · have := parsed_startChunk (d := { d with line := [] }) hchunks hlinks hnone htrailers rfl
      hlength hstart
    rwa [append_assoc, hbuffer, ← append_assoc, append_nil]
  · simp only [Parsed, hstate]
    exact ⟨chunks, hchunks, hlinks, hnone, htrailers, hopen, by rw [append_assoc],
      by rw [append_nil], by rw [append_nil]; exact hlength⟩

theorem parsed_data (hstate : d.state = .data) : d'.Parsed (read ++ [byte]) (out ++ out') := by
  simp only [Parsed, hstate] at hparsed
  obtain ⟨chunks, c, hchunks, hlinks, hhead, hhasher, hexpected, hsize, hpos, htrailers, hline, rfl,
    rfl, hlength⟩ := hparsed
  simp only [feed, hstate, emitData] at h
  let c' : Chunk := { c with data := c.data ++ [byte] }
  have hhead' : c'.HeadFormed d.mode := ⟨hhead.digits, hhead.unsigned, hhead.signed⟩
  have hhasher' : (d.absorb [byte]).chunkHasher = c'.data := by
    simp [absorb, hhasher, c']
  have hremaining : (d.absorb [byte]).chunkRemaining = d.chunkRemaining - 1 := rfl
  have hsize' : c'.data.length + (d.absorb [byte]).chunkRemaining = fromHex c'.size := by
    simp only [c', hremaining, length_append, length_singleton]
    omega
  split at h
  · next hzero =>
    obtain ⟨d₁, hv, h⟩ := bind_eq_ok.mp h
    cases h
    have hlinks' : d₁.Links (chunks ++ [c']) :=
      Links.append (d := d.absorb [byte]) hlinks hhead' hhasher' hexpected hv
    obtain ⟨rfl, -⟩ := verifyChunkSignature_ok hv
    have hwhole : c'.WellFormed d.mode := ⟨hhead', by rw [← hsize', hzero, Nat.add_zero]⟩
    refine ⟨chunks, c', ?_, hlinks', rfl, htrailers, hline, by decide, ?_, ?_, ?_⟩
    · intro x hx
      rcases mem_append.mp hx with hx | hx
      · exact hchunks x hx
      · rw [mem_singleton.mp hx]
        exact ⟨hwhole, by simp [c']⟩
    · simp [c', Chunk.head]
    · simp [c']
    · rw [hremaining] at hzero
      simp only [absorb, length_append, length_singleton] at hlength ⊢
      omega
  · next hmore =>
    cases h
    have hdata : (d.absorb [byte]).state = .data := hstate
    simp only [Parsed, hdata]
    refine ⟨chunks, c', hchunks, hlinks, hhead', hhasher', hexpected, hsize',
      Nat.pos_of_ne_zero hmore, htrailers, hline, ?_, ?_, ?_⟩
    · simp [c', Chunk.head]
    · simp [c']
    · rw [hremaining] at hmore ⊢
      simp only [absorb, length_append, length_singleton] at hlength ⊢
      omega

theorem parsed_dataCrlf (hstate : d.state = .dataCrlf matched) :
    d'.Parsed (read ++ [byte]) (out ++ out') := by
  simp only [Parsed, hstate] at hparsed
  obtain ⟨chunks, c, hchunks, hlinks, hnone, htrailers, hline, hmatched, rfl, rfl, hlength⟩ :=
    hparsed
  simp only [feed, hstate] at h
  obtain ⟨rfl, hbytes, rfl⟩ := feedCrlf_ok hmatched h
  rw [append_nil, append_assoc _ _ [byte], hbytes]
  by_cases hlast : matched + 1 = 2
  · rw [hlast]
    refine ⟨chunks ++ [c], hchunks, hlinks, hnone, htrailers, by rw [hline]; decide, ?_, rfl,
      hlength⟩
    simp only [hline, flatMap_append, flatMap_singleton, Chunk.wire, append_nil,
      append_assoc]
    rfl
  · simp only [if_neg hlast]
    exact ⟨chunks, c, hchunks, hlinks, hnone, htrailers, hline, by omega, rfl, rfl, hlength⟩

theorem parsed_finalCrlf (hstate : d.state = .finalCrlf matched) :
    d'.Parsed (read ++ [byte]) (out ++ out') := by
  simp only [Parsed, hstate] at hparsed
  obtain ⟨hmode, chunks, last, hchunks, hwhole, hempty, hlinks, hmatched, rfl, rfl, hlength⟩ :=
    hparsed
  simp only [feed, hstate] at h
  obtain ⟨rfl, hbytes, rfl⟩ := feedCrlf_ok hmatched h
  rw [append_nil, append_assoc _ _ [byte], hbytes]
  by_cases hlast : matched + 1 = 2
  · rw [hlast]
    refine ⟨⟨chunks, last, []⟩, ⟨hchunks, ⟨hwhole, hempty⟩, fun _ => rfl, by simp⟩, hlinks,
      fun hm => absurd hmode hm, ?_, rfl, hlength⟩
    simp only [Framing.wire, hmode]
    rfl
  · simp only [if_neg hlast]
    exact ⟨hmode, chunks, last, hchunks, hwhole, hempty, hlinks, by omega, rfl, rfl, hlength⟩

theorem parsed_trailers (hstate : d.state = .trailers) :
    d'.Parsed (read ++ [byte]) (out ++ out') := by
  simp only [Parsed, hstate] at hparsed
  obtain ⟨hmode, chunks, last, trailers, hchunks, hwhole, hempty, hlinks, htrailers, hline, rfl,
    rfl, hlength⟩ := hparsed
  simp only [feed, hstate] at h
  obtain ⟨rfl, ⟨line, hbuffer, hfree, hcomplete⟩ | ⟨hopen, rfl⟩⟩ := feedLine_ok hline h
  · rw [append_assoc _ _ [byte], hbuffer, append_nil]
    obtain ⟨trailerBytes, ⟨rfl, hverify, rfl⟩ | hparse⟩ := trailerLine_ok hcomplete
    · -- the empty line ends the body
      refine ⟨⟨chunks, last, trailers⟩, ⟨hchunks, ⟨hwhole, hempty⟩, fun hm => absurd hm hmode,
        htrailers.1⟩, hlinks, fun _ => ⟨htrailers, hverify⟩, ?_, rfl, hlength⟩
      simp [Framing.wire]
    · obtain ⟨name, value, rfl, hcases⟩ := parseTrailer_ok hparse
      have hread := TrailersRead.append (d := { d with line := [], trailerBytes }) htrailers hfree
        hcases
      have hd : d'.state = .trailers ∧ d'.line = [] ∧ d'.mode = d.mode ∧
          d'.decodedLength = d.decodedLength ∧ d'.signing = d.signing ∧
          d'.previousSignature = d.previousSignature := by
        rcases hcases with ⟨-, -, -, rfl⟩ | ⟨-, -, rfl⟩ <;> exact ⟨hstate, rfl, rfl, rfl, rfl, rfl⟩
      obtain ⟨hs, hl, hm, hdl, hsig, hprev⟩ := hd
      simp only [Parsed, hs]
      refine ⟨by rw [hm]; exact hmode, chunks, last, trailers ++ [(name, value)], ?_, ?_, hempty,
        ?_, hread, by rw [hl]; decide, ?_, rfl, by rw [hdl]; exact hlength⟩
      · simpa only [Chunks, hm] using hchunks
      · rw [hm]
        exact hwhole
      · simpa only [Links, hm, hsig, hprev] using hlinks
      · simp [hl, trailerWire]
  · simp only [Parsed, hstate]
    exact ⟨hmode, chunks, last, trailers, hchunks, hwhole, hempty, hlinks, htrailers, hopen,
      by simp only [append_assoc], by rw [append_nil], by rw [append_nil]; exact hlength⟩

/-- **Every byte that is accepted goes on with the body.** -/
theorem parsed_feed : d'.Parsed (read ++ [byte]) (out ++ out') := by
  cases hstate : d.state with
  | header => exact parsed_header hparsed h hstate
  | data => exact parsed_data hparsed h hstate
  | dataCrlf => exact parsed_dataCrlf hparsed h hstate
  | finalCrlf => exact parsed_finalCrlf hparsed h hstate
  | trailers => exact parsed_trailers hparsed h hstate
  | done =>
    simp only [feed, hstate] at h
    cases h

end Step

theorem config_startChunk (h : d.startChunk line = .ok d') : d'.config = d.config := by
  obtain ⟨c, -, -, -, hbegin⟩ := startChunk_ok h
  rcases beginChunk_ok hbegin with ⟨-, d₁, hv, rfl⟩ | ⟨-, rfl⟩
  · obtain ⟨rfl, -⟩ := verifyChunkSignature_ok hv
    rfl
  · rfl

theorem config_trailerLine (h : d.trailerLine line = .ok d') : d'.config = d.config := by
  obtain ⟨trailerBytes, ⟨-, -, rfl⟩ | hparse⟩ := trailerLine_ok h
  · rfl
  · obtain ⟨_, _, -, ⟨-, -, -, rfl⟩ | ⟨-, -, rfl⟩⟩ := parseTrailer_ok hparse <;> rfl

theorem config_feed (h : feed d byte = .ok (out, d')) : d'.config = d.config := by
  rw [feed] at h
  split at h
  · exact feedLine_keeps (P := (config · = d.config)) (fun _ => rfl)
      (fun line d' hc => config_startChunk (d := { d with line := [] }) hc) h
  · rw [emitData] at h
    split at h
    · obtain ⟨d₁, hv, h⟩ := bind_eq_ok.mp h
      cases h
      obtain ⟨rfl, -⟩ := verifyChunkSignature_ok hv
      rfl
    · cases h
      rfl
  · exact config_feedCrlf h
  · exact config_feedCrlf h
  · exact feedLine_keeps (P := (config · = d.config)) (fun _ => rfl)
      (fun line d' hc => config_trailerLine (d := { d with line := [] }) hc) h
  · cases h

/-- **What has been read of a body**, from a new decoder. -/
theorem parsed_run {mode : StreamingMode}
    {signing : StreamingSigning}
    (h : feed.run (new mode length trailer signing) read = .ok (out, d')) :
    d'.Parsed read out ∧ d'.config = (mode, signing, length, trailer) := by
  refine Transducer.run_history
    (P := fun read out d => d.Parsed read out ∧ d.config = (mode, signing, length, trailer)) ?_ ?_ h
  · refine ⟨⟨[], ?_, fun _ => ⟨trivial, rfl⟩, rfl, ⟨?_, rfl⟩, ?_, rfl, rfl, rfl⟩, rfl⟩
    · exact fun c hc => absurd hc (not_mem_nil)
    · exact fun trailer ht => absurd ht (not_mem_nil)
    · simp [new, crlf]
  · rintro read out d byte out' d' ⟨hparsed, hconfig⟩ hfeed
    exact ⟨parsed_feed hparsed hfeed, (config_feed hfeed).trans hconfig⟩

end Feed

end AwsChunkedDecoder

/-! ### What the headers have declared -/

section Headers

variable {headers : HeaderMap} {trailerDeclaration declared : Option Bytes}
  {checksum : Option ChecksumVerifier}

/-- The mode of a chunked body. -/
def streamingMode (payloadHash : Bytes) : Option StreamingMode :=
  if payloadHash = ascii "STREAMING-AWS4-HMAC-SHA256-PAYLOAD" then some .signed
  else if payloadHash = ascii "STREAMING-AWS4-HMAC-SHA256-PAYLOAD-TRAILER" then some .signedTrailer
  else if payloadHash = ascii "STREAMING-UNSIGNED-PAYLOAD-TRAILER" then some .unsignedTrailer
  else none

theorem payloadState_chunked {contentEncoding decodedLength : Option Bytes} {payloadHash : Bytes}
    {signing : Option StreamingSigning} {trustedTls : Bool} {state : PayloadState}
    {mode : StreamingMode}
    (hmode : streamingMode payloadHash = some mode)
    (h : payloadState contentEncoding decodedLength trailerDeclaration declared payloadHash
      signing trustedTls = .ok state) :
    ∃ length trailer signing', state = .chunked (.new mode length trailer signing') ∧
      parseDecodedLength decodedLength = .ok length ∧
      (mode ≠ .signed → trailer = declared ∧ declared ≠ none) ∧
      (mode ≠ .unsignedTrailer → signing = some signing') := by
  have hplain : payloadHash ≠ ascii "UNSIGNED-PAYLOAD" := by
    rintro rfl
    have : streamingMode (ascii "UNSIGNED-PAYLOAD") = none := by decide +kernel
    rw [this] at hmode
    cases hmode
  simp only [payloadState, if_neg hplain] at h
  rw [streamingMode] at hmode
  split at hmode
  · next hhash =>
    cases hmode
    simp only [if_pos hhash, bind_eq_ok, ite_error_eq_ok] at h
    obtain ⟨_, -, -, h⟩ := h
    split at h
    · cases h
    next signing' =>
    obtain ⟨length, hlength, h⟩ := bind_eq_ok.mp h
    cases h
    exact ⟨length, none, signing', rfl, hlength, fun hm => absurd rfl hm, fun _ => rfl⟩
  next hhash =>
  rw [if_neg hhash] at h
  split at hmode
  · next hhash =>
    cases hmode
    rw [if_pos hhash, bind_eq_ok] at h
    obtain ⟨_, -, h⟩ := h
    split at h
    · cases h
    next signing' =>
    split at h
    · cases h
    next trailer =>
    obtain ⟨length, hlength, h⟩ := bind_eq_ok.mp h
    cases h
    exact ⟨length, some trailer, signing', rfl, hlength, fun _ => ⟨rfl, by simp⟩, fun _ => rfl⟩
  next hhash =>
  rw [if_neg hhash] at h
  split at hmode
  · next hhash =>
    cases hmode
    simp only [if_pos hhash, bind_eq_ok, ite_error_eq_ok] at h
    obtain ⟨-, _, -, h⟩ := h
    split at h
    · cases h
    next trailer =>
    obtain ⟨length, hlength, h⟩ := bind_eq_ok.mp h
    cases h
    exact ⟨length, some trailer, _, rfl, hlength, fun _ => ⟨rfl, by simp⟩, fun hm => absurd rfl hm⟩
  · cases hmode

variable [Digests]

/-- A declared trailer has a checksum that is still to come. -/
theorem checksumFromHeaders_ok
    (h : checksumFromHeaders headers trailerDeclaration = .ok (checksum, declared)) :
    declared = declaredTrailer trailerDeclaration ∧
      ∀ name, declared = some name → ∃ algorithm, ChecksumAlgorithm.fromHeader name =
        some algorithm ∧ checksum = some ⟨algorithm, [], none, true⟩ := by
  simp only [checksumFromHeaders, bind_eq_ok, ite_error_eq_ok] at h
  obtain ⟨selected, -, hknown, hboth, _, -, _, -, h⟩ := h
  cases h
  refine ⟨rfl, fun name hname => ?_⟩
  rw [hname] at hknown hboth ⊢
  have hselected : selected = none := by
    cases selected with
    | none => rfl
    | some => exact absurd ⟨rfl, rfl⟩ hboth
  simp only [any_some, Bool.or_eq_true, not_or, isNone_iff_eq_none] at hknown
  obtain ⟨algorithm, halgorithm⟩ := ne_none_iff_exists'.mp hknown.2
  refine ⟨algorithm, halgorithm, ?_⟩
  simp [hselected, halgorithm]

end Headers

/-! ### Accepted bodies -/

section Accepted

variable [Digests] {v v' : BodyVerifier} {decoder : AwsChunkedDecoder} {out payloadHash : Bytes}
  {n : Nat} {headers : HeaderMap} {signing : Option StreamingSigning} {trustedTls : Bool}
  {mode : StreamingMode}

/-- The checksum in the trailer is that of the absorbed bytes. -/
theorem checksum_of_trailer {c c' : ChecksumVerifier}
    (h : c.setTrailer name value = .ok c') (hfinish : c'.finish = .ok ()) :
    Digests.base64Decode value = some (c.algorithm.finalize c.state) := by
  simp only [ChecksumVerifier.setTrailer, ite_error_eq_ok, bind_eq_ok] at h
  obtain ⟨-, expected, hd, h⟩ := h
  cases h
  have hvalue : Digests.base64Decode value = some expected := by
    rw [decodeChecksum] at hd
    split at hd
    · cases hd
    · next decoded hdecoded =>
      cases (ite_error_eq_ok.mp hd).2
      exact hdecoded
  simp only [ChecksumVerifier.finish, ite_error_eq_ok] at hfinish
  replace hfinish := hfinish.2
  split at hfinish
  · next heq => rw [hvalue, constantTimeEq_iff.mp heq]
  · cases hfinish

/-- A chunked body is accepted when its decoder is done, with the declared length, and its trailer
has the checksum. -/
theorem finish_chunked (hstate : v.state = .chunked decoder) (h : v.finish = .ok n) :
    n = v.decodedBytes ∧ decoder.state = .done ∧
      decoder.decodedLength = decoder.expectedDecodedLength ∧
      ∀ name value, decoder.checksumTrailer = some (name, value) → ∀ c, v.checksum = some c →
        Digests.base64Decode value = some (c.algorithm.finalize c.state) := by
  have hdecoder : decoder.finish = .ok () → decoder.state = .done ∧
      decoder.decodedLength = decoder.expectedDecodedLength := by
    intro h
    rw [AwsChunkedDecoder.finish, ite_error_eq_ok, ite_error_eq_ok] at h
    exact ⟨not_not.mp h.1, not_not.mp h.2.1⟩
  cases htrailer : decoder.checksumTrailer with
  | none =>
    simp only [finish, applyChunkedTrailer, hstate, htrailer, ok_bind, bind_eq_ok] at h
    obtain ⟨_, hfinish, h⟩ := h
    obtain ⟨hdone, hlength⟩ := hdecoder hfinish
    refine ⟨?_, hdone, hlength, by simp⟩
    split at h
    · cases h
      rfl
    · obtain ⟨_, -, h⟩ := bind_eq_ok.mp h
      cases h
      rfl
  | some trailer =>
    obtain ⟨name, value⟩ := trailer
    cases hchecksum : v.checksum with
    | none =>
      simp only [finish, applyChunkedTrailer, hstate, htrailer, hchecksum] at h
      cases h
    | some =>
      simp only [finish, applyChunkedTrailer, hstate, htrailer, hchecksum, bind_eq_ok] at h
      obtain ⟨_, ⟨c', hset, hv⟩, h⟩ := h
      cases hv
      simp only [bind_eq_ok] at h
      obtain ⟨_, hfinish, _, hc, h⟩ := h
      cases h
      obtain ⟨hdone, hlength⟩ := hdecoder hfinish
      refine ⟨rfl, hdone, hlength, ?_⟩
      rintro _ _ ⟨rfl, rfl⟩ _ ⟨rfl⟩
      exact checksum_of_trailer hset hc

/-- What the trailers of an accepted body are: the declared checksum of the emitted bytes, and in
the signed mode its signature behind that of the last chunk. -/
def TrailersSound (mode : StreamingMode) (signing : Option StreamingSigning)
    (trailer : Option Bytes) (f : Framing) (out : Bytes) : Prop :=
  ∃ name algorithm value, trailer = some name ∧ ChecksumAlgorithm.fromHeader name = some algorithm ∧
    Digests.base64Decode value = some (algorithm.finalize out) ∧
    (mode = .unsignedTrailer → f.trailers = [(name, value)]) ∧
    (mode = .signedTrailer → ∃ s text, signing = some s ∧
      f.trailers = [(name, value), (AwsChunkedDecoder.signatureTrailer, text)] ∧
      toAsciiLowercase text = hmacHex s.signingKey
        (s.trailerToSign (s.chain s.seedSignature (f.chunks ++ [f.last])) name value))

/-- The trailers of a body whose decoder is done. -/
theorem trailersSound_of_done {f : Framing} {algorithm : ChecksumAlgorithm}
    (hname : decoder.declaredTrailer = some name)
    (halgorithm : ChecksumAlgorithm.fromHeader name = some algorithm)
    (hsigning : decoder.mode ≠ .unsignedTrailer → signing = some decoder.signing)
    (hlinks : decoder.Links (f.chunks ++ [f.last])) (htrailers : decoder.TrailersRead f.trailers)
    (hverified : decoder.verifyTrailers = .ok ())
    (hchecksum : ∀ name value, decoder.checksumTrailer = some (name, value) →
      Digests.base64Decode value = some (algorithm.finalize out)) :
    TrailersSound decoder.mode signing (some name) f out := by
  obtain ⟨name', value, hpresent, hsigned, hunsigned⟩ :=
    AwsChunkedDecoder.verifyTrailers_ok hverified
  have hread := htrailers.2
  refine ⟨name, algorithm, value, rfl, halgorithm, hchecksum name' value hpresent, fun hmode => ?_,
    fun hmode => ?_⟩
  · have hnone := hunsigned (by simp [hmode])
    simp only [hpresent, hnone] at hread
    rw [hread.2]
    cases hname.symm.trans hread.1
    rfl
  · obtain ⟨s, hs, heq⟩ := hsigned hmode
    simp only [hpresent, hs] at hread
    obtain ⟨hdeclared, text, rfl, hlist⟩ := hread
    cases hname.symm.trans hdeclared
    have hmode' : decoder.mode ≠ .unsignedTrailer := by simp [hmode]
    refine ⟨decoder.signing, text, hsigning hmode', hlist, ?_⟩
    rw [toAsciiLowercase_of_constantTimeHexEq heq, (hlinks hmode').2]

/-- What an accepted chunked body has been through. -/
theorem run_of_verify {signing' : StreamingSigning}
    (htakes : v.Takes) (hnew : v.state = .chunked (.new mode length trailer signing'))
    (hzero : v.decodedBytes = 0) {pieces : List Bytes} (hok : v.verify pieces = .ok (out, n)) :
    ∃ d, AwsChunkedDecoder.feed.run (.new mode length trailer signing') pieces.flatten =
      .ok (out, d) ∧ n = out.length ∧ d.state = .done ∧ d.decodedLength = d.expectedDecodedLength ∧
      ∀ name value, d.checksumTrailer = some (name, value) → ∀ c, v.checksum = some c →
        Digests.base64Decode value = some (c.algorithm.finalize (c.state ++ out)) := by
  have hoption := verify_toOption htakes pieces
  rw [hok] at hoption
  obtain ⟨⟨out', v'⟩, htake, hfinish⟩ := bind_eq_some_iff.mp hoption.symm
  obtain ⟨e, hstate, habsorb⟩ := bind_eq_some_iff.mp htake
  obtain ⟨v₁, hv₁, heq⟩ := map_eq_some_iff.mp habsorb
  cases heq
  rw [hnew] at hstate
  obtain ⟨fed, hfed, heq⟩ := map_eq_some_iff.mp hstate
  cases heq
  cases hrun : AwsChunkedDecoder.feed.run (.new mode length trailer signing') pieces.flatten with
  | error =>
    rw [hrun] at hfed
    cases hfed
  | ok =>
    rw [hrun] at hfed
    cases hfed
    cases hfin : finish { v₁ with state := .chunked fed.2 } with
    | error =>
      simp only [hfin] at hfinish
      cases hfinish
    | ok =>
      simp only [hfin] at hfinish
      cases hfinish
      obtain ⟨hn, hdone, hlength, hchecksum⟩ := finish_chunked rfl hfin
      rw [absorb] at hv₁
      split at hv₁
      · cases hv₁
        refine ⟨fed.2, rfl, by simpa [hzero] using hn, hdone, hlength,
          fun name value hpresent c hc => ?_⟩
        exact hchecksum name value hpresent (c.update fed.1) (by simp [hc])
      · cases hv₁

/-- **Soundness.**  A chunked body that is accepted, in whatever pieces it came, is one well-formed
framing, signed in a chain from the seed; the emitted bytes are those of its chunks, as many as
declared, and the declared trailer has their checksum. -/
theorem verify_sound (h : fromHeaders headers payloadHash signing trustedTls = .ok v)
    (hmode : streamingMode payloadHash = some mode) {pieces : List Bytes}
    (hok : v.verify pieces = .ok (out, n)) :
    ∃ f : Framing, pieces.flatten = f.wire mode ∧ f.WellFormed mode ∧
      (mode ≠ .unsignedTrailer → ∃ s, signing = some s ∧
        s.Signs s.seedSignature (f.chunks ++ [f.last])) ∧
      out = f.body ∧ n = out.length ∧
      (∃ text, oneHeader headers "x-amz-decoded-content-length" = .ok (some text) ∧
        parseU64 text = some out.length) ∧
      (mode ≠ .signed → ∃ declaration, oneHeader headers "x-amz-trailer" = .ok declaration ∧
        TrailersSound mode signing (declaredTrailer declaration) f out) := by
  obtain ⟨_, decodedLength, declaration, declared, hlength, htrailer, hchecksum, hstate, hzero⟩ :=
    fromHeaders_ok h
  obtain ⟨length, trailer, signing', hnew, hparse, hdeclared, hsigning⟩ :=
    payloadState_chunked hmode hstate
  obtain ⟨d, hrun, hn, hdone, hexpected, hcheck⟩ :=
    run_of_verify (takes_of_fromHeaders h) hnew hzero hok
  obtain ⟨hparsed, hconfig⟩ := AwsChunkedDecoder.parsed_run hrun
  obtain ⟨rfl, rfl, rfl, rfl⟩ : d.mode = mode ∧ d.signing = signing' ∧
      d.expectedDecodedLength = length ∧ d.declaredTrailer = trailer := by
    simpa [AwsChunkedDecoder.config] using hconfig
  simp only [AwsChunkedDecoder.Parsed, hdone] at hparsed
  obtain ⟨f, hformed, hlinks, htrailers, hread, hbody, hcount⟩ := hparsed
  refine ⟨f, hread, hformed, fun hm => ⟨d.signing, hsigning hm, (hlinks hm).1⟩, hbody, hn, ?_,
    fun hm => ⟨declaration, htrailer, ?_⟩⟩
  · cases decodedLength with
    | none => cases hparse
    | some text =>
      simp only [parseDecodedLength] at hparse
      split at hparse
      · cases hparse
      · next length hvalue =>
        refine ⟨text, hlength, ?_⟩
        rw [hvalue, ← hcount, hexpected]
        exact congrArg some (Except.ok.inj hparse)
  · obtain ⟨hname, hsome⟩ := hdeclared hm
    obtain ⟨name, rfl⟩ := ne_none_iff_exists'.mp hsome
    obtain ⟨hdecl, hverifier⟩ := checksumFromHeaders_ok hchecksum
    obtain ⟨algorithm, halgorithm, hc⟩ := hverifier name rfl
    obtain ⟨hreadTrailers, hverified⟩ := htrailers hm
    rw [← hdecl]
    exact trailersSound_of_done hname halgorithm hsigning hlinks hreadTrailers hverified
      fun name' value hpresent => hcheck name' value hpresent _ hc

end Accepted

/-- The body of three bytes, as one framing. -/
theorem trailer_body_sound : letI := blankDigests
    ∃ f : Framing, trailerBody = f.wire .unsignedTrailer ∧ ascii "abc" = f.body := by
  let _ := blankDigests
  have hv : fromHeaders trailerHeaders (ascii "STREAMING-UNSIGNED-PAYLOAD-TRAILER") none
      true = .ok trailerVerifier := by decide +kernel
  have hmode : streamingMode (ascii "STREAMING-UNSIGNED-PAYLOAD-TRAILER") =
    some .unsignedTrailer := by
    decide +kernel
  have hok : trailerVerifier.verify [trailerBody] = .ok (ascii "abc", 3) := by decide +kernel
  obtain ⟨f, hwire, -, -, hbody, -⟩ := verify_sound hv hmode hok
  exact ⟨f, by rw [← hwire, flatten_singleton], hbody⟩

end S4.Integrity
