import S4.Integrity.Soundness
import S4.Lib.Fallible

/-!
# Integrity — Completeness

What a client writes by the rules is accepted.  A framing whose chunks are within the limits, signed
in a chain from the seed, with its declared length and the declared checksum in its trailer, is read
to its end (`AwsChunkedDecoder.run_framing`, one chunk at a time: `run_chunk`), and the verifier
emits the data of its chunks, in whatever pieces it came (`verify_complete`).  Together with
`verify_sound` this says which chunked bodies are accepted.
-/

namespace S4.Integrity

open Lib List Transducer BodyVerifier

/-- What holds of the libraries that the gateway links: a visible text is UTF-8, a base64 text is
visible and as long as its bytes need, and digests have their lengths. -/
class LawfulDigests [Digests] : Prop where
  utf8_of_visible : ∀ {s : Bytes}, Visible s → Digests.utf8 s = true
  base64_text : ∀ {value bytes : Bytes}, Digests.base64Decode value = some bytes →
    Visible value ∧ value.length = (bytes.length + 2) / 3 * 4
  length_finalize : ∀ (algorithm : ChecksumAlgorithm) (absorbed : Bytes),
    (algorithm.finalize absorbed).length = algorithm.expectedLen
  length_hmac : ∀ key message : Bytes, (Digests.hmacSha256 key message).length = 32

variable {text name absorbed body : Bytes} {cs : List Chunk} {checksum : Bytes × Bytes}
  {declaration declared : Option Bytes}

namespace AwsChunkedDecoder

variable {d d' : AwsChunkedDecoder} {line value : Bytes} {c : Chunk} {f : Framing}
  {mode : StreamingMode} {algorithm : ChecksumAlgorithm}

/-! ### Lines -/

theorem takeLine_line {limit : Nat} {buffer : Bytes} (hline : 0x0a ∉ line)
    (hlimit : (buffer ++ line).length ≤ limit) :
    takeLine limit buffer (line ++ crlf) = .ok (some (buffer ++ line), [], []) := by
  -- a byte that is not `\n` does not end the line
  have hopen : ∀ {s : Bytes} {b : UInt8}, b ≠ 0x0a → ¬ crlf <:+ s ++ [b] := by
    rintro s b hb ⟨front, hfront⟩
    have hlast := congrArg getLast? hfront
    simp only [crlf, getLast?_append, getLast?_singleton] at hlast
    exact hb (Option.some.inj hlast).symm
  induction line generalizing buffer with
  | nil =>
    rw [append_nil] at hlimit ⊢
    have hcr : ¬ ((buffer ++ [0x0d]).length > limit ∧ ((buffer ++ [0x0d]).length ≠ limit + 1 ∨
        (buffer ++ [0x0d]).getLast? ≠ some 0x0d)) := by
      simp only [length_append, length_singleton, getLast?_append,
        getLast?_singleton]
      rintro ⟨hlong, hne | hne⟩
      · omega
      · exact hne rfl
    have hend : crlf <:+ buffer ++ [0x0d] ++ [0x0a] := ⟨buffer, by simp [crlf]⟩
    have hopen' : ¬ crlf <:+ buffer ++ [0x0d] := hopen (by decide)
    change takeLine limit buffer [0x0d, 0x0a] = _
    simp only [takeLine, hopen', hcr, hend, if_true, if_false]
    simp
  | cons b line ih =>
    simp only [mem_cons, not_or] at hline
    have hshort : (buffer ++ [b] ++ line).length ≤ limit := by simpa using hlimit
    have hlen : (buffer ++ [b]).length ≤ limit := by
      rw [length_append] at hshort
      omega
    rw [cons_append, takeLine, if_neg (hopen (Ne.symm hline.1)), if_neg (by omega),
      ih hline.2 hshort, append_assoc, singleton_append]

theorem newline_notMem_of_visible (h : Visible line) : 0x0a ∉ line := by
  intro hmem
  exact absurd (h _ hmem).1 (by decide)

/-! ### Chunk headers -/

theorem visible_head (h : c.HeadFormed mode) : Visible c.head := by
  have hsize := visible_of_hexdigits h.digits.2.2
  rw [Chunk.head]
  by_cases hmode : mode = .unsignedTrailer
  · rw [h.unsigned hmode]
    exact hsize
  · obtain ⟨signature, hs, _, hhex⟩ := h.signed hmode
    have hsemicolon : Visible (ascii ";") := by decide +kernel
    have hname : Visible (ascii "chunk-signature=") := by decide +kernel
    rw [hs]
    exact ((hsize.append hsemicolon).append hname).append (visible_of_hexdigits hhex)

theorem length_head_le (h : c.HeadFormed mode) : c.head.length ≤ maxChunkHeaderBytes := by
  have hsize := h.digits.2.1
  rw [Chunk.head]
  by_cases hmode : mode = .unsignedTrailer
  · rw [h.unsigned hmode]
    exact hsize.trans (by decide)
  · obtain ⟨signature, hs, hlen, _⟩ := h.signed hmode
    have htexts : (ascii ";").length + (ascii "chunk-signature=").length = 17 := by decide
    simp only [hs, length_append, maxChunkHeaderBytes]
    omega

theorem splitHeader_head (h : c.HeadFormed mode) :
    splitHeader c.head = (c.size, c.signature.map (ascii "chunk-signature=" ++ ·)) := by
  have hsize : 0x3b ∉ c.size := by
    intro hmem
    exact absurd (all_eq_true.mp h.digits.2.2 _ hmem) (by decide)
  cases hs : c.signature with
  | none => simp only [splitHeader, Chunk.head, hs, splitOnce_eq_none hsize, Option.map_none]
  | some signature =>
    have hhead : c.size ++ ascii ";" ++ ascii "chunk-signature=" ++ signature =
        c.size ++ 0x3b :: (ascii "chunk-signature=" ++ signature) := by
      have hsemicolon : ascii ";" = [0x3b] := rfl
      simp [hsemicolon]
    simp only [splitHeader, Chunk.head, hs, hhead, splitOnce_append hsize, Option.map_some]

theorem parseSha256_of_hexdigits (hlen : value.length = 64)
    (hhex : value.all isAsciiHexdigit = true) : ∃ bytes, parseSha256 value = .ok bytes := by
  obtain ⟨bytes, hbytes⟩ := hexDecode_of_hexdigits hhex (by rw [hlen])
  refine ⟨bytes, ?_⟩
  rw [parseSha256, if_neg (by simp [hlen, hhex]), hbytes]

theorem chunkExtension_head (h : c.HeadFormed d.mode) (hnone : d.expectedChunkSignature = none) :
    d.chunkExtension (c.signature.map (ascii "chunk-signature=" ++ ·)) =
      .ok { d with expectedChunkSignature := c.signature.map toAsciiLowercase } := by
  by_cases hmode : d.mode = .unsignedTrailer
  · simp only [chunkExtension, hmode, h.unsigned hmode, Option.map_none, Option.isSome_none,
      Bool.false_eq_true, if_false]
    rw [← hnone, ← hmode]
  · obtain ⟨signature, hs, hlen, hhex⟩ := h.signed hmode
    obtain ⟨bytes, hparse⟩ := parseSha256_of_hexdigits hlen hhex
    have hext : d.signedExtension (some (ascii "chunk-signature=" ++ signature)) =
        .ok { d with expectedChunkSignature := some (toAsciiLowercase signature) } := by
      have hdrop : (ascii "chunk-signature=" ++ signature).dropPrefix? (ascii "chunk-signature=") =
          some signature := dropPrefix?_eq_some_iff.mpr ⟨_, rfl, beq_self_eq_true _⟩
      simp only [signedExtension, Option.bind_some, hdrop, hparse]
      rfl
    rw [hs, Option.map_some, Option.map_some]
    cases hm : d.mode with
    | signed => simp [chunkExtension, hm, hext]
    | signedTrailer => simp [chunkExtension, hm, hext]
    | unsignedTrailer => exact absurd hm hmode

/-! ### Trailer lines -/

/-- The name of a checksum trailer is one that the decoder takes. -/
theorem header_canonical {algorithm : ChecksumAlgorithm} : let name := ascii algorithm.header
    name ≠ [] ∧ name.all (fun b => (0x61 ≤ b ∧ b ≤ 0x7a) ∨ isAsciiDigit b ∨ b = 0x2d) = true ∧
      0x3a ∉ name ∧ name ≠ signatureTrailer ∧ Visible name ∧ name.length ≤ 64 := by
  cases algorithm <;> decide +kernel

/-- What `parseTrailer` refuses of a name and a value. -/
theorem canonical_trailer (hne : name ≠ [])
    (hall : name.all (fun b => (0x61 ≤ b ∧ b ≤ 0x7a) ∨ isAsciiDigit b ∨ b = 0x2d) = true)
    (hvalue : Visible value) :
    ¬ (name = [] ∨ name.all (fun b => (0x61 ≤ b ∧ b ≤ 0x7a) ∨ isAsciiDigit b ∨ b = 0x2d) = false ∨
      trim value ≠ value) := by
  rw [hall, trim_of_visible hvalue]
  simp [hne]

theorem splitOnce_trailer (hname : 0x3a ∉ name) :
    splitOnce 0x3a (name ++ ascii ":" ++ value) = some (name, value) := by
  have hcolon : ascii ":" = [0x3a] := rfl
  rw [hcolon, append_assoc, singleton_append, splitOnce_append hname]

theorem visible_trailer (hname : Visible name) (hvalue : Visible value) :
    Visible (name ++ ascii ":" ++ value) :=
  (hname.append (by decide +kernel)).append hvalue

theorem length_trailer_le (hname : name.length ≤ 64) (hvalue : value.length ≤ 64) :
    (name ++ ascii ":" ++ value).length ≤ 256 := by
  have hcolon : (ascii ":").length = 1 := by decide
  simp only [length_append, hcolon]
  omega

theorem trailer_ne_nil {name value : Bytes} : name ++ ascii ":" ++ value ≠ [] := by
  have hcolon : ascii ":" = [0x3a] := rfl
  simp [hcolon]

variable [Digests]

/-! ### Reading a chunk header -/

theorem run_line (limit : Nat)
    (complete : AwsChunkedDecoder → Bytes → Except IntegrityError AwsChunkedDecoder)
    (hfeed : ∀ buffer byte, feed { d with line := buffer } byte =
      feedLine limit complete { d with line := buffer } byte)
    (hempty : d.line = []) (hline : 0x0a ∉ line) (hlimit : line.length ≤ limit) :
    feed.run d (line ++ crlf) = (complete d line).map ([], ·) := by
  have hreads := takeLine_reads hfeed [] (line ++ crlf)
  rw [takeLine_line hline (by simpa using hlimit)] at hreads
  obtain ⟨used, _, hused, hrun⟩ := hreads
  have hd : { d with line := [] } = d := by rw [← hempty]
  rw [append_nil] at hused
  rwa [hd, ← hused, nil_append] at hrun

/-! ### Signatures -/

theorem constantTimeHexEq_hmacHex (key message : Bytes) :
    constantTimeHexEq (hmacHex key message) (hmacHex key message) = true := by
  simp only [constantTimeHexEq, hmacHex, hexDecode_hexEncode]
  exact constantTimeEq_iff.mpr rfl

/-- A chunk whose signature is that of its data passes. -/
theorem verifyChunkSignature_signed (h : ∀ s, d.expectedChunkSignature = some s →
      s = d.signing.chunkSignature d.previousSignature d.chunkHasher) :
    d.verifyChunkSignature = .ok { d with
      expectedChunkSignature := none
      previousSignature := d.expectedChunkSignature.getD d.previousSignature } := by
  cases hs : d.expectedChunkSignature with
  | none =>
    simp only [verifyChunkSignature, hs, Option.getD_none]
    rw [← hs]
  | some s =>
    have heq := constantTimeHexEq_hmacHex d.signing.signingKey
      (d.signing.chunkToSign d.previousSignature d.chunkHasher)
    simp [verifyChunkSignature, hs, h s hs, StreamingSigning.chunkSignature, heq]

/-- A hexadecimal text of an HMAC, in either case. -/
theorem hexdigits_of_hmacHex [LawfulDigests] {key message : Bytes}
    (h : toAsciiLowercase text = hmacHex key message) :
    text.length = 64 ∧ text.all isAsciiHexdigit = true := by
  constructor
  · have hlen := congrArg length h
    simpa only [toAsciiLowercase, length_map, hmacHex, length_hexEncode,
      LawfulDigests.length_hmac] using hlen
  · refine hexdigits_of_toAsciiLowercase ?_
    rw [h]
    exact hexEncode_hexdigits _

/-- The decoder with the header of a chunk. -/
def withHead (d : AwsChunkedDecoder) (c : Chunk) : AwsChunkedDecoder :=
  { d with
    chunks := d.chunks + 1
    expectedChunkSignature := c.signature.map toAsciiLowercase }

theorem startChunk_head [LawfulDigests] (h : c.HeadFormed d.mode)
    (hnone : d.expectedChunkSignature = none) (hsize : fromHex c.size ≤ maxChunkBytes)
    (hcount : d.chunks < maxChunks) :
    d.startChunk c.head = (d.withHead c).beginChunk (fromHex c.size) := by
  have hutf8 : ¬ Digests.utf8 c.head = false := by
    rw [LawfulDigests.utf8_of_visible (visible_head h)]
    decide
  have hdigits : ¬ (c.size = [] ∨ c.size.length > 16 ∨ c.size.all isAsciiHexdigit = false) := by
    simpa only [not_or, not_lt, Bool.not_eq_false] using h.digits
  have hext : chunkExtension { d with chunks := d.chunks + 1 }
      (c.signature.map (ascii "chunk-signature=" ++ ·)) = .ok (d.withHead c) :=
    chunkExtension_head (d := { d with chunks := d.chunks + 1 }) h hnone
  simp only [startChunk, splitHeader_head h]
  rw [if_neg hutf8, if_neg hdigits, if_neg (by omega), if_neg (by omega), hext]
  rfl

theorem run_head [LawfulDigests] (hstate : d.state = .header) (hline : d.line = [])
    (h : c.HeadFormed d.mode) (hnone : d.expectedChunkSignature = none)
    (hsize : fromHex c.size ≤ maxChunkBytes) (hcount : d.chunks < maxChunks) :
    feed.run d (c.head ++ crlf) = ((d.withHead c).beginChunk (fromHex c.size)).map ([], ·) := by
  rw [← startChunk_head h hnone hsize hcount]
  refine run_line maxChunkHeaderBytes startChunk ?_ hline
    (newline_notMem_of_visible (visible_head h)) (length_head_le h)
  intro buffer byte
  simp [feed, hstate]

/-! ### Chunks -/

/-- The decoder behind a chunk. -/
def afterChunk (d : AwsChunkedDecoder) (c : Chunk) : AwsChunkedDecoder :=
  { d with
    chunks := d.chunks + 1
    decodedLength := d.decodedLength + c.data.length
    chunkRemaining := 0
    chunkHasher := c.data
    previousSignature := (c.signature.map toAsciiLowercase).getD d.previousSignature }

/-- What the trailers of the framing are to a decoder that is before it: the declared checksum, and
in the signed mode its signature behind that of the last chunk. -/
def ExpectsTrailers (d : AwsChunkedDecoder) (f : Framing) : Prop :=
  ∃ (algorithm : ChecksumAlgorithm) (value : Bytes),
    d.declaredTrailer = some (ascii algorithm.header) ∧ Visible value ∧ value.length ≤ 64 ∧
    (d.mode = .unsignedTrailer → f.trailers = [(ascii algorithm.header, value)]) ∧
    (d.mode = .signedTrailer → ∃ text,
      f.trailers = [(ascii algorithm.header, value), (signatureTrailer, text)] ∧
      toAsciiLowercase text = hmacHex d.signing.signingKey (d.signing.trailerToSign
        (d.signing.chain d.previousSignature (f.chunks ++ [f.last]))
          (ascii algorithm.header) value))

/-- **The decoder is before a framing that it will accept.** -/
structure Expects (d : AwsChunkedDecoder) (f : Framing) : Prop where
  header : d.state = .header ∧ d.line = [] ∧ d.expectedChunkSignature = none
  formed : f.WellFormed d.mode
  small : ∀ c ∈ f.chunks, c.data.length ≤ maxChunkBytes
  count : d.chunks + f.chunks.length < maxChunks
  length : d.decodedLength + f.body.length = d.expectedDecodedLength
  bound : d.expectedDecodedLength ≤ maxWord 64
  signs : d.mode ≠ .unsignedTrailer → d.signing.Signs d.previousSignature (f.chunks ++ [f.last])
  trailers : d.mode ≠ .signed → d.ExpectsTrailers f
  fresh : d.trailerBytes = 0 ∧ d.trailerCount = 0 ∧ d.checksumTrailer = none ∧
    d.trailerSignature = none

theorem signature_of_signs (h : c.HeadFormed d.mode)
    (hsigns : d.mode ≠ .unsignedTrailer → d.signing.Signs d.previousSignature (c :: cs)) :
    ∀ s, c.signature.map toAsciiLowercase = some s →
      s = d.signing.chunkSignature d.previousSignature c.data := by
  intro s hs
  by_cases hmode : d.mode = .unsignedTrailer
  · rw [h.unsigned hmode] at hs
    cases hs
  · exact Option.some.inj (hs.symm.trans (hsigns hmode).1)

theorem run_dataCrlf (hstate : d.state = .dataCrlf 0) :
    feed.run d crlf = .ok ([], { d with state := .header }) := by
  cases d
  cases hstate
  rfl

theorem run_finalCrlf (hstate : d.state = .finalCrlf 0) :
    feed.run d crlf = .ok ([], { d with state := .done }) := by
  cases d
  cases hstate
  rfl

/-- The data of a chunk is put out, and its signature verified. -/
theorem run_data (hstate : d.state = .data) {data : Bytes} (hne : data ≠ [])
    (hlen : d.chunkRemaining = data.length) (hhasher : d.chunkHasher = [])
    (hsigned : ∀ s, d.expectedChunkSignature = some s →
      s = d.signing.chunkSignature d.previousSignature data) :
    feed.run d data = .ok (data, { d with
      chunkRemaining := 0
      chunkHasher := data
      expectedChunkSignature := none
      previousSignature := d.expectedChunkSignature.getD d.previousSignature
      state := .dataCrlf 0 }) := by
  have hpos : 0 < d.chunkRemaining := by
    rw [hlen]
    exact length_pos_of_ne_nil hne
  have habsorb : d.absorb data = { d with chunkRemaining := 0, chunkHasher := data } := by
    simp [absorb, hhasher, hlen]
  rw [data_reads hstate hpos data hlen.ge, habsorb, emitData, if_pos rfl,
    verifyChunkSignature_signed hsigned]
  rfl

/-- A chunk within the declared length goes on to its data. -/
theorem beginChunk_data {size : Nat} (hpos : 0 < size)
    (hlength : d.decodedLength + size ≤ d.expectedDecodedLength)
    (hbound : d.expectedDecodedLength ≤ maxWord 64) : d.beginChunk size = .ok { d with
      chunkRemaining := size
      chunkHasher := []
      decodedLength := d.decodedLength + size
      state := .data } := by
  have hadd : checkedAdd 64 d.decodedLength size = some (d.decodedLength + size) :=
    checkedAdd_of_le (hlength.trans hbound)
  simp only [beginChunk, hpos.ne', hadd, if_false]
  rw [if_neg hlength.not_gt]

/-- **A chunk.** -/
theorem run_chunk [LawfulDigests] (h : d.Expects { f with chunks := c :: cs }) :
    feed.run d c.wire = .ok (c.data, d.afterChunk c) := by
  obtain ⟨hstate, hline, hnone⟩ := h.header
  obtain ⟨hformed, hne⟩ := h.formed.chunks c mem_cons_self
  have hsmall := h.small c mem_cons_self
  have hcount : d.chunks + (c :: cs).length < maxChunks := h.count
  have hlength : d.decodedLength + ((c :: cs).flatMap Chunk.data).length =
    d.expectedDecodedLength :=
    h.length
  have hbound := h.bound
  rw [flatMap_cons, length_append] at hlength
  rw [length_cons] at hcount
  rw [hformed.length] at hsmall
  have hsigned := signature_of_signs hformed.toHeadFormed h.signs
  have hpos := length_pos_of_ne_nil hne
  have hhead := run_head hstate hline hformed.toHeadFormed hnone hsmall (by omega)
  have hdata : (d.withHead c).decodedLength + c.data.length ≤ d.expectedDecodedLength := by
    change d.decodedLength + c.data.length ≤ d.expectedDecodedLength
    omega
  rw [← hformed.length, beginChunk_data hpos hdata hbound] at hhead
  rw [Chunk.wire, append_assoc _ c.data, run_append_ok hhead,
    run_append_ok (run_data rfl hne rfl rfl hsigned), run_dataCrlf rfl]
  simp only [Except.map, nil_append, append_nil, withHead, afterChunk]
  rw [← hstate, ← hnone]

/-- Behind a chunk the decoder is before the rest of the framing. -/
theorem Expects.afterChunk (h : d.Expects { f with chunks := c :: cs }) :
    (d.afterChunk c).Expects { f with chunks := cs } := by
  have hhead := (h.formed.chunks c mem_cons_self).1.toHeadFormed
  -- the chain goes on behind the signature of the chunk
  have hprevious : d.mode ≠ .unsignedTrailer → (d.afterChunk c).previousSignature =
      d.signing.chunkSignature d.previousSignature c.data := by
    intro hmode
    simp [AwsChunkedDecoder.afterChunk, (h.signs hmode).1]
  have hlength : d.decodedLength + ((c :: cs).flatMap Chunk.data).length =
    d.expectedDecodedLength :=
    h.length
  have hcount : d.chunks + (c :: cs).length < maxChunks := h.count
  refine ⟨h.header, ⟨fun c' hc' => h.formed.chunks c' (mem_cons_of_mem _ hc'), h.formed.last,
    h.formed.trailers, h.formed.lines⟩, fun c' hc' => h.small c' (mem_cons_of_mem _ hc'), ?_, ?_,
    h.bound, ?_, ?_, h.fresh⟩
  · rw [length_cons] at hcount
    change d.chunks + 1 + cs.length < maxChunks
    omega
  · rw [flatMap_cons, length_append] at hlength
    change d.decodedLength + c.data.length + (cs.flatMap Chunk.data).length =
      d.expectedDecodedLength
    omega
  · intro hmode
    rw [hprevious hmode]
    exact (h.signs hmode).2
  · intro hmode
    obtain ⟨algorithm, value, hdeclared, hvisible, hshort, hunsigned, hsigned⟩ := h.trailers hmode
    refine ⟨algorithm, value, hdeclared, hvisible, hshort, hunsigned, fun hmode => ?_⟩
    have hne : d.mode ≠ .unsignedTrailer := by
      rw [show d.mode = .signedTrailer from hmode]
      decide
    obtain ⟨text, htrailers, htext⟩ := hsigned hmode
    refine ⟨text, htrailers, ?_⟩
    rw [hprevious hne]
    exact htext

/-- The decoder behind the last chunk. -/
def afterLast (d : AwsChunkedDecoder) (last : Chunk) : AwsChunkedDecoder :=
  { d.afterChunk last with state := if d.mode = .signed then .finalCrlf 0 else .trailers }

/-- **The last chunk.** -/
theorem run_last [LawfulDigests] (h : d.Expects { f with chunks := [] }) :
    feed.run d (f.last.head ++ crlf) = .ok ([], d.afterLast f.last) := by
  obtain ⟨hstate, hline, hnone⟩ := h.header
  obtain ⟨hformed, hnil⟩ : f.last.WellFormed d.mode ∧ f.last.data = [] := h.formed.last
  have hcount : d.chunks + 0 < maxChunks := h.count
  have hzero : fromHex f.last.size = 0 := by rw [← hformed.length, hnil, length_nil]
  have hsigned := signature_of_signs hformed.toHeadFormed h.signs
  have hbegin : (d.withHead f.last).beginChunk 0 = .ok (d.afterLast f.last) := by
    have hverify := verifyChunkSignature_signed
      (d := { d.withHead f.last with chunkRemaining := 0, chunkHasher := [] })
        (by rwa [hnil] at hsigned)
    rw [beginChunk, if_pos rfl, hverify]
    simp only [withHead, afterLast, afterChunk, hnil, hnone, length_nil, Nat.add_zero, ok_bind]
    cases d.mode <;> rfl
  rw [run_head hstate hline hformed.toHeadFormed hnone (by rw [hzero]; exact Nat.zero_le _) hcount,
    hzero, hbegin]
  rfl

/-! ### Trailers -/

/-- The decoder behind the line of the checksum. -/
def withChecksum (d : AwsChunkedDecoder) (n : Nat) (checksum : Bytes × Bytes) : AwsChunkedDecoder :=
  { d with trailerBytes := n, trailerCount := 1, checksumTrailer := some checksum }

/-- The decoder behind the line of the signature. -/
def withSignature (d : AwsChunkedDecoder) (n : Nat) (text : Bytes) : AwsChunkedDecoder :=
  { d with
    trailerBytes := n, trailerCount := 2, trailerSignature := some (toAsciiLowercase text) }

theorem run_trailerLine (hstate : d.state = .trailers) (hempty : d.line = [])
    (hvisible : Visible line) (hlen : line.length ≤ 256) (hbytes : d.trailerBytes ≤ 1024) :
    ∃ n, n ≤ d.trailerBytes + 258 ∧ feed.run d (line ++ crlf) =
      (if line = [] then
        (verifyTrailers { d with trailerBytes := n }).map fun _ =>
          ([], { d with trailerBytes := n, state := .done })
      else (parseTrailer { d with trailerBytes := n } line).map ([], ·)) := by
  have hadd : checkedAdd 64 d.trailerBytes (line.length + 2) =
      some (d.trailerBytes + (line.length + 2)) := by
    exact checkedAdd_of_le (le_trans (b := 2048) (by omega) (by decide))
  have hlimit : ¬ d.trailerBytes + (line.length + 2) > maxTrailerBytes := by
    rw [maxTrailerBytes]
    omega
  have hrun := run_line maxTrailerLineBytes trailerLine (d := d) ?_ hempty
    (newline_notMem_of_visible hvisible) (hlen.trans (by decide))
  · refine ⟨d.trailerBytes + (line.length + 2), by omega, ?_⟩
    rw [hrun]
    simp only [trailerLine, hadd, hlimit, if_false]
    split
    · cases verifyTrailers { d with trailerBytes := d.trailerBytes + (line.length + 2) } <;> rfl
    · rfl
  · intro buffer byte
    simp [feed, hstate]

theorem parseTrailer_checksum [LawfulDigests]
    (hdeclared : d.declaredTrailer = some (ascii algorithm.header)) (hvisible : Visible value)
    (hcount : d.trailerCount = 0) (hnone : d.checksumTrailer = none) :
    d.parseTrailer (ascii algorithm.header ++ ascii ":" ++ value) =
      .ok (d.withChecksum d.trailerBytes (ascii algorithm.header, value)) := by
  obtain ⟨hne, hall, hcolon, hsignature, hname, _⟩ := @header_canonical algorithm
  have hutf8 := LawfulDigests.utf8_of_visible (visible_trailer hname hvisible)
  have hcanonical := canonical_trailer hne hall hvisible
  have hmax : ¬ 0 + 1 > maxTrailers := by decide
  rw [signatureTrailer] at hsignature
  simp only [parseTrailer, withChecksum, hcount, hmax, hutf8, splitOnce_trailer hcolon, hcanonical,
    hsignature, hnone, hdeclared, if_false, Bool.true_eq_false, Option.isSome_none,
      Bool.false_eq_true,
    ne_eq, not_true_eq_false]

theorem parseTrailer_signature [LawfulDigests]
    (hlen : text.length = 64) (hhex : text.all isAsciiHexdigit = true)
    (hcount : d.trailerCount = 1) (hsome : d.checksumTrailer = some checksum)
    (hnone : d.trailerSignature = none) :
    d.parseTrailer (signatureTrailer ++ ascii ":" ++ text) =
      .ok (d.withSignature d.trailerBytes text) := by
  have hname : signatureTrailer ≠ [] ∧ signatureTrailer.all (fun b =>
      (0x61 ≤ b ∧ b ≤ 0x7a) ∨ isAsciiDigit b ∨ b = 0x2d) = true ∧ 0x3a ∉ signatureTrailer ∧
      Visible signatureTrailer := by decide +kernel
  have hvisible := visible_of_hexdigits hhex
  have hutf8 := LawfulDigests.utf8_of_visible (visible_trailer hname.2.2.2 hvisible)
  have hcanonical := canonical_trailer hname.1 hname.2.1 hvisible
  have hmax : ¬ 1 + 1 > maxTrailers := by decide
  obtain ⟨bytes, hparse⟩ := parseSha256_of_hexdigits hlen hhex
  have hself : signatureTrailer = ascii "x-amz-trailer-signature" := rfl
  simp only [parseTrailer, withSignature, hcount, hmax, hutf8, splitOnce_trailer hname.2.2.1,
    hcanonical, hsome, hnone, hparse, ← hself, if_true, if_false, Bool.true_eq_false,
    Option.isSome_none, Option.isNone_some, Bool.false_eq_true, or_self, ok_bind, pure_eq_ok]

/-- What the decoder is in when it has accepted the framing. -/
structure Accepts (d : AwsChunkedDecoder) (f : Framing) : Prop where
  done : d.state = .done
  length : d.decodedLength = d.expectedDecodedLength
  checksum : d.checksumTrailer = f.trailers.head?

theorem Expects.length_afterLast (h : d.Expects { f with chunks := [] }) :
    (d.afterLast f.last).decodedLength = d.expectedDecodedLength := by
  have hlength : d.decodedLength + 0 = d.expectedDecodedLength := h.length
  have hnil : f.last.data = [] := h.formed.last.2
  change d.decodedLength + f.last.data.length = d.expectedDecodedLength
  rwa [hnil]

/-- The signed mode ends in a CRLF. -/
theorem run_signed (h : d.Expects { f with chunks := [] }) (hmode : d.mode = .signed) :
    ∃ d', feed.run (d.afterLast f.last) crlf = .ok ([], d') ∧ d'.Accepts f := by
  have hstate : (d.afterLast f.last).state = .finalCrlf 0 := by
    simp only [afterLast, hmode, if_true]
  have hnone : f.trailers = [] := h.formed.trailers hmode
  refine ⟨_, run_finalCrlf hstate, rfl, h.length_afterLast, ?_⟩
  rw [hnone]
  exact h.fresh.2.2.1

theorem run_checksum [LawfulDigests] (hstate : d.state = .trailers) (hempty : d.line = [])
    (hdeclared : d.declaredTrailer = some (ascii algorithm.header)) (hvisible : Visible value)
    (hshort : value.length ≤ 64) (hbytes : d.trailerBytes = 0) (hcount : d.trailerCount = 0)
    (hnone : d.checksumTrailer = none) :
    ∃ n, n ≤ 258 ∧ feed.run d (trailerWire (ascii algorithm.header, value)) =
      .ok ([], d.withChecksum n (ascii algorithm.header, value)) := by
  obtain ⟨_, _, _, _, hname, hnameLen⟩ := header_canonical
  obtain ⟨n, hn, hrun⟩ := run_trailerLine hstate hempty (visible_trailer hname hvisible)
    (length_trailer_le hnameLen hshort) (by omega)
  rw [if_neg trailer_ne_nil, parseTrailer_checksum (d := { d with trailerBytes := n }) hdeclared
    hvisible hcount hnone] at hrun
  exact ⟨n, by omega, hrun⟩

theorem run_signature [LawfulDigests]
    (hstate : d.state = .trailers) (hempty : d.line = []) (hlen : text.length = 64)
    (hhex : text.all isAsciiHexdigit = true) (hbytes : d.trailerBytes ≤ 258)
    (hcount : d.trailerCount = 1) (hsome : d.checksumTrailer = some checksum)
    (hnone : d.trailerSignature = none) :
    ∃ n, n ≤ 516 ∧ feed.run d (trailerWire (signatureTrailer, text)) =
      .ok ([], d.withSignature n text) := by
  have hname : Visible signatureTrailer ∧ signatureTrailer.length ≤ 64 := by decide +kernel
  obtain ⟨n, hn, hrun⟩ := run_trailerLine hstate hempty
    (visible_trailer hname.1 (visible_of_hexdigits hhex)) (length_trailer_le hname.2 hlen.le)
      (by omega)
  rw [if_neg trailer_ne_nil, parseTrailer_signature (d := { d with trailerBytes := n }) hlen hhex
    hcount hsome hnone] at hrun
  exact ⟨n, by omega, hrun⟩

theorem run_end (hstate : d.state = .trailers) (hempty : d.line = [])
    (hbytes : d.trailerBytes ≤ 516) (hverified : d.verifyTrailers = .ok ()) :
    ∃ n, feed.run d crlf = .ok ([], { d with trailerBytes := n, state := .done }) := by
  have hnil : Visible [] := by simp [Visible]
  obtain ⟨n, _, hrun⟩ := run_trailerLine hstate hempty hnil (by simp) (by omega)
  refine ⟨n, ?_⟩
  rw [nil_append, if_pos rfl] at hrun
  rw [hrun, show verifyTrailers { d with trailerBytes := n } = d.verifyTrailers from rfl, hverified]
  rfl

/-- **The trailers.** -/
theorem run_trailers [LawfulDigests] (h : d.Expects { f with chunks := [] })
    (hmode : d.mode ≠ .signed) :
    ∃ d', feed.run (d.afterLast f.last) (f.trailers.flatMap trailerWire ++ crlf) = .ok ([], d') ∧
      d'.Accepts f := by
  obtain ⟨algorithm, value, hdeclared, hvisible, hshort, hunsigned, hsigned⟩ := h.trailers hmode
  obtain ⟨hbytes, hcount, hchecksum, hsignature⟩ := h.fresh
  have hlength : (d.afterLast f.last).decodedLength = (d.afterLast f.last).expectedDecodedLength :=
    h.length_afterLast
  have hstate : (d.afterLast f.last).state = .trailers := by simp only [afterLast, if_neg hmode]
  have hline : (d.afterLast f.last).line = [] := h.header.2.1
  have hmode₁ : (d.afterLast f.last).mode = d.mode := rfl
  have hsignature₁ : (d.afterLast f.last).trailerSignature = none := hsignature
  have hsigning₁ : (d.afterLast f.last).signing = d.signing := rfl
  have hprevious₁ : d.mode ≠ .unsignedTrailer → (d.afterLast f.last).previousSignature =
      d.signing.chain d.previousSignature [f.last] := by
    intro hne
    simp only [afterLast, AwsChunkedDecoder.afterChunk, (h.signs hne).1, Option.getD_some]
    rfl
  obtain ⟨n, hn, hfirst⟩ :=
    run_checksum hstate hline hdeclared hvisible hshort hbytes hcount hchecksum
  generalize d.afterLast f.last = e at *
  cases hm : d.mode with
  | signed => exact absurd hm hmode
  | unsignedTrailer =>
    have htrailers : f.trailers = [(ascii algorithm.header, value)] := hunsigned hm
    obtain ⟨m, hend⟩ := run_end (d := e.withChecksum n (ascii algorithm.header, value)) hstate hline
      (hn.trans (by decide)) (by simp [verifyTrailers, withChecksum, hmode₁, hm, hsignature₁])
    rw [htrailers, flatMap_singleton, run_append_ok hfirst, hend]
    exact ⟨_, rfl, rfl, hlength, by rw [htrailers]; rfl⟩
  | signedTrailer =>
    obtain ⟨text, htrailers, htext⟩ := hsigned hm
    obtain ⟨hlen, hhex⟩ := hexdigits_of_hmacHex htext
    have hne : d.mode ≠ .unsignedTrailer := by simp [hm]
    obtain ⟨m, hm', hsecond⟩ :=
      run_signature (d := e.withChecksum n (ascii algorithm.header, value))
      hstate hline hlen hhex hn rfl rfl hsignature₁
    obtain ⟨k, hend⟩ := run_end
      (d := (e.withChecksum n (ascii algorithm.header, value)).withSignature m text) hstate hline
        hm' (by
        simp only [verifyTrailers, withChecksum, withSignature, hmode₁, hm, if_true, hsigning₁,
          hprevious₁ hne, htext]
        exact if_pos (constantTimeHexEq_hmacHex _ _))
    rw [htrailers, flatMap_cons, flatMap_singleton, append_assoc,
      run_append_ok hfirst, run_append_ok hsecond, hend]
    exact ⟨_, rfl, rfl, hlength, by rw [htrailers]; rfl⟩

/-- **A framing.**  The decoder reads it to its end, and puts out the data of its chunks. -/
theorem run_framing [LawfulDigests] (h : d.Expects f) :
    ∃ d', feed.run d (f.wire d.mode) = .ok (f.body, d') ∧ d'.Accepts f := by
  obtain ⟨chunks, last, trailers⟩ := f
  induction chunks generalizing d with
  | nil =>
    -- behind the last chunk, by the mode
    have hlast := run_last (f := ⟨[], last, trailers⟩) h
    by_cases hmode : d.mode = .signed
    · obtain ⟨d', hrun, haccepts⟩ := run_signed (f := ⟨[], last, trailers⟩) h hmode
      refine ⟨d', ?_, haccepts⟩
      simp only [Framing.wire, hmode, flatMap_nil, nil_append]
      rw [run_append_ok hlast, hrun]
      rfl
    · obtain ⟨d', hrun, haccepts⟩ := run_trailers (f := ⟨[], last, trailers⟩) h hmode
      refine ⟨d', ?_, haccepts⟩
      have hwire : Framing.wire d.mode ⟨[], last, trailers⟩ =
          last.head ++ crlf ++ (trailers.flatMap trailerWire ++ crlf) := by
        cases hm : d.mode with
        | signed => exact absurd hm hmode
        | signedTrailer => simp [Framing.wire]
        | unsignedTrailer => simp [Framing.wire]
      rw [hwire, run_append_ok hlast, hrun]
      rfl
  | cons c chunks ih =>
    have hchunk := run_chunk (f := ⟨c :: chunks, last, trailers⟩) h
    obtain ⟨d', hrun, haccepts⟩ := ih (Expects.afterChunk (f := ⟨c :: chunks, last, trailers⟩) h)
    refine ⟨d', ?_, haccepts.done, haccepts.length, haccepts.checksum⟩
    have hwire : Framing.wire d.mode ⟨c :: chunks, last, trailers⟩ =
        c.wire ++ Framing.wire d.mode ⟨chunks, last, trailers⟩ := by
      simp [Framing.wire]
    rw [hwire, run_append_ok hchunk,
      show Framing.wire d.mode _ = Framing.wire (d.afterChunk c).mode _ from rfl, hrun]
    rfl

end AwsChunkedDecoder

/-! ### Checksums -/

section Checksums

variable {algorithm : ChecksumAlgorithm} {value : Bytes}

theorem expectedLen_bounds (algorithm : ChecksumAlgorithm) :
    0 < algorithm.expectedLen ∧ algorithm.expectedLen ≤ 32 := by
  cases algorithm <;> decide

/-- The name of a declared trailer is that of its checksum. -/
theorem header_of_declared (h : declaredTrailer declaration = some name)
    (halgorithm : ChecksumAlgorithm.fromHeader name = some algorithm) :
    name = ascii algorithm.header := by
  obtain ⟨text, _, rfl⟩ := Option.map_eq_some_iff.mp h
  have heq := ChecksumAlgorithm.eq_header_of_fromHeader halgorithm
  have hlower : toAsciiLowercase (ascii algorithm.header) = ascii algorithm.header := by
    cases algorithm <;> decide +kernel
  rw [eqIgnoreAsciiCase, beq_iff_eq, toAsciiLowercase_twice, hlower] at heq
  exact heq

variable [Digests]

theorem selectChecksum_ok {headers : HeaderMap} {selected : Option (ChecksumAlgorithm × Bytes)}
    {expected : Bytes} {names : List (ChecksumAlgorithm × String)}
    (h : selectChecksum headers selected names = .ok (some (algorithm, expected))) :
    selected = some (algorithm, expected) ∨ ∃ name value, (algorithm, name) ∈ names ∧
      oneHeader headers name = .ok (some value) ∧ decodeChecksum algorithm value =
        .ok expected := by
  induction names generalizing selected with
  | nil => exact .inl (Except.ok.inj h)
  | cons e names ih =>
    -- what the rest of the headers select
    have hrest : ∀ {selected}, selectChecksum headers selected names =
      .ok (some (algorithm, expected)) →
        selected = some (algorithm, expected) ∨ ∃ name value, (algorithm, name) ∈ e :: names ∧
          oneHeader headers name = .ok (some value) ∧
          decodeChecksum algorithm value = .ok expected := by
      intro selected h
      rcases ih h with hselected | ⟨name, value, hmem, hvalue⟩
      · exact .inl hselected
      · exact .inr ⟨name, value, mem_cons_of_mem _ hmem, hvalue⟩
    rw [selectChecksum] at h
    obtain ⟨value, hvalue, h⟩ := bind_eq_ok.mp h
    cases value with
    | none => exact hrest h
    | some value =>
      simp only at h
      split at h
      · cases h
      obtain ⟨decoded, hdecoded, h⟩ := bind_eq_ok.mp h
      rcases hrest h with hselected | hlater
      · cases hselected
        exact .inr ⟨e.2, value, mem_cons_self, hvalue, hdecoded⟩
      · exact .inr hlater

variable [LawfulDigests]

theorem decodeChecksum_finalize
    (h : Digests.base64Decode value = some (algorithm.finalize absorbed)) :
    decodeChecksum algorithm value = .ok (algorithm.finalize absorbed) := by
  simp only [decodeChecksum, h]
  rw [if_neg (not_not.mpr (LawfulDigests.length_finalize _ _))]

/-- A verifier that expects the checksum of what it has absorbed is satisfied. -/
theorem checksum_finish {c : ChecksumVerifier}
    (h : c.expected = some (c.algorithm.finalize c.state)) : c.finish = .ok () := by
  have hne : c.algorithm.finalize c.state ≠ [] := by
    refine ne_nil_of_length_pos ?_
    rw [LawfulDigests.length_finalize]
    exact (expectedLen_bounds c.algorithm).1
  simp only [ChecksumVerifier.finish, h]
  rw [if_neg (fun hnil => hne hnil.2), if_pos (constantTimeEq_iff.mpr rfl)]

end Checksums

/-! ### Bodies that are accepted -/

section Complete

variable [Digests] [LawfulDigests] {v : BodyVerifier} {headers : HeaderMap} {payloadHash : Bytes}
  {signing : Option StreamingSigning} {trustedTls : Bool} {mode : StreamingMode} {f : Framing}
  {decoder : AwsChunkedDecoder}

omit [Digests] [LawfulDigests] in
/-- The signed mode has no trailers to declare. -/
theorem payloadState_signed {contentEncoding decodedLength trailerDeclaration : Option Bytes}
    {state : PayloadState} (hmode : streamingMode payloadHash = some .signed)
    (h : payloadState contentEncoding decodedLength trailerDeclaration declared payloadHash
      signing trustedTls = .ok state) : trailerDeclaration = none := by
  have hhash : payloadHash = ascii "STREAMING-AWS4-HMAC-SHA256-PAYLOAD" := by
    rw [streamingMode] at hmode
    split at hmode
    · assumption
    · split at hmode
      · cases hmode
      · split at hmode <;> cases hmode
  have hplain : ascii "STREAMING-AWS4-HMAC-SHA256-PAYLOAD" ≠ ascii "UNSIGNED-PAYLOAD" := by
    decide +kernel
  simp only [payloadState, hhash, if_neg hplain, if_true] at h
  obtain ⟨_, _, h⟩ := bind_eq_ok.mp h
  split at h
  · cases h
  · next hnone => exact Option.not_isSome_iff_eq_none.mp hnone

/-- Every checksum header has the checksum of the body. -/
def HeadersSound (headers : HeaderMap) (body : Bytes) : Prop :=
  ∀ algorithm name value, (algorithm, name) ∈ ChecksumAlgorithm.all →
    oneHeader headers name = .ok (some value) →
    Digests.base64Decode value = some (algorithm.finalize body)

/-- Without a declared trailer, a checksum is that of a header. -/
theorem checksum_of_headers {checksum : Option ChecksumVerifier}
    (h : checksumFromHeaders headers none = .ok (checksum, declared))
    (hheaders : HeadersSound headers body) :
    ∀ c, checksum = some c → c.state = [] ∧ c.expected = some (c.algorithm.finalize body) := by
  rw [checksumFromHeaders] at h
  obtain ⟨selected, hselected, h⟩ := bind_eq_ok.mp h
  simp only [declaredTrailer, Option.map_none, Option.filter_none, Option.any_none,
    Bool.false_eq_true,
    if_false, Option.isSome_none, and_false, Option.bind_none, Option.or_none] at h
  obtain ⟨sdk, _, h⟩ := bind_eq_ok.mp h
  obtain ⟨_, _, h⟩ := bind_eq_ok.mp h
  cases h
  rintro c hc
  cases selected with
  | none => cases hc
  | some e =>
    obtain ⟨algorithm, expected⟩ := e
    cases hc
    obtain hnone | ⟨name, value, hmem, hvalue, hdecoded⟩ := selectChecksum_ok hselected
    · cases hnone
    · rw [decodeChecksum_finalize (hheaders _ _ _ hmem hvalue)] at hdecoded
      cases hdecoded
      exact ⟨rfl, rfl⟩

omit [Digests] [LawfulDigests] in
/-- A decoder that has accepted the framing finishes. -/
theorem decoder_finish (h : decoder.Accepts f) : decoder.finish = .ok () := by
  rw [AwsChunkedDecoder.finish, if_neg (not_not.mpr h.done), if_neg (not_not.mpr h.length)]

/-- Without a trailer, the checksum of a header is compared. -/
theorem finish_header (haccepts : decoder.Accepts f) (hnil : f.trailers = [])
    (hstate : v.state = .chunked decoder)
    (hchecksum : ∀ c, v.checksum = some c → c.expected = some (c.algorithm.finalize c.state)) :
    v.finish = .ok v.decodedBytes := by
  have hnone : decoder.checksumTrailer = none := by
    rw [haccepts.checksum, hnil]
    rfl
  simp only [finish, applyChunkedTrailer, hstate, hnone, decoder_finish haccepts, ok_bind]
  cases hc : v.checksum with
  | none => rfl
  | some c =>
    simp only [checksum_finish (hchecksum c hc)]
    rfl

theorem finish_trailer (haccepts : decoder.Accepts f) {algorithm : ChecksumAlgorithm}
    {value : Bytes} (htrailer : f.trailers.head? = some (ascii algorithm.header, value))
    (hstate : v.state = .chunked decoder)
    (hchecksum : v.checksum = some ⟨algorithm, absorbed, none, true⟩)
    (hvalue : Digests.base64Decode value = some (algorithm.finalize absorbed)) :
    v.finish = .ok v.decodedBytes := by
  have hsome : decoder.checksumTrailer = some (ascii algorithm.header, value) := by
    rw [haccepts.checksum, htrailer]
  have hset : ChecksumVerifier.setTrailer ⟨algorithm, absorbed, none, true⟩ (ascii algorithm.header)
      value = .ok ⟨algorithm, absorbed, some (algorithm.finalize absorbed), true⟩ := by
    have hself : eqIgnoreAsciiCase (ascii algorithm.header) (ascii algorithm.header) = true :=
      beq_self_eq_true _
    simp only [ChecksumVerifier.setTrailer, hself, decodeChecksum_finalize hvalue]
    rfl
  have hfinish := checksum_finish
    (c := ⟨algorithm, absorbed, some (algorithm.finalize absorbed), true⟩) rfl
  simp [finish, applyChunkedTrailer, hstate, hsome, hchecksum, hset, decoder_finish haccepts,
    hfinish, ok_bind, pure_eq_ok]

omit [LawfulDigests] in
/-- The verdict on a body that the decoder reads to its end. -/
theorem verify_of_run (htakes : v.Takes) (hstate : v.state = .chunked decoder)
    (hzero : v.decodedBytes = 0) (hbound : body.length ≤ maxWord 64)
    {decoder' : AwsChunkedDecoder} {pieces : List Bytes}
    (hrun : AwsChunkedDecoder.feed.run decoder pieces.flatten = .ok (body, decoder'))
    (hfinish : finish ⟨.chunked decoder', v.checksum.map (·.update body), body.length⟩ =
      .ok body.length) : v.verify pieces = .ok (body, body.length) := by
  have habsorb : v.absorb body = some { v with
      decodedBytes := body.length
      checksum := v.checksum.map (·.update body) } := by
    rw [absorb, if_pos (by omega), hzero, Nat.zero_add]
  have hoption := verify_toOption htakes pieces
  simp only [BodyVerifier.take, BodyVerifier.takeState, hstate, hrun, Except.toOption,
    Option.map_some, Option.bind_some, habsorb, hfinish] at hoption
  cases hv : v.verify pieces with
  | error => simp [hv] at hoption
  | ok => simpa [hv] using hoption

/-- The decoder of the headers is before the framing. -/
theorem expects_new {length : Nat} {trailer : Option Bytes} {signing' : StreamingSigning}
    (hformed : f.WellFormed mode) (hcount : f.chunks.length < maxChunks)
    (hsmall : ∀ c ∈ f.chunks, c.data.length ≤ maxChunkBytes)
    (hlength : f.body.length = length) (hbound : length ≤ maxWord 64)
    (hsigning : mode ≠ .unsignedTrailer → signing = some signing')
    (hsigns : mode ≠ .unsignedTrailer → ∃ s, signing = some s ∧
      s.Signs s.seedSignature (f.chunks ++ [f.last]))
    (htrailer : mode ≠ .signed → trailer = declaredTrailer declaration)
    (htrailers : mode ≠ .signed →
    TrailersSound mode signing (declaredTrailer declaration) f f.body) :
    (AwsChunkedDecoder.new mode length trailer signing').Expects f := by
  refine ⟨⟨rfl, rfl, rfl⟩, hformed, hsmall, by simpa [AwsChunkedDecoder.new] using hcount,
    by simpa [AwsChunkedDecoder.new] using hlength, hbound, ?_, ?_, ⟨rfl, rfl, rfl, rfl⟩⟩
  · intro hmode
    obtain ⟨s, hs, hchain⟩ := hsigns hmode
    cases (hsigning hmode).symm.trans hs
    exact hchain
  · intro hmode
    obtain ⟨name, algorithm, value, hname, halgorithm, hvalue, hunsigned, hsigned⟩ :=
      htrailers hmode
    obtain rfl := header_of_declared hname halgorithm
    obtain ⟨hvisible, hlen⟩ := LawfulDigests.base64_text hvalue
    have hshort : value.length ≤ 64 := by
      have := (expectedLen_bounds algorithm).2
      rw [LawfulDigests.length_finalize] at hlen
      omega
    refine ⟨algorithm, value, (htrailer hmode).trans hname, hvisible, hshort, hunsigned, ?_⟩
    intro hm
    obtain ⟨s, text, hs, hlist, htext⟩ := hsigned hm
    have hne : mode ≠ .unsignedTrailer := by
      rw [show mode = .signedTrailer from hm]
      decide
    cases (hsigning hne).symm.trans hs
    exact ⟨text, hlist, htext⟩

/-- **Completeness.**  A framing within the limits, signed in a chain from the seed, with its length
as declared, and with the declared checksum of its data in its trailer (or in a header), is accepted
in whatever pieces it comes: every `push` and `finish` succeed, and the data of its chunks is
emitted. -/
theorem verify_complete (h : fromHeaders headers payloadHash signing trustedTls = .ok v)
    (hmode : streamingMode payloadHash = some mode) (hformed : f.WellFormed mode)
    (hcount : f.chunks.length < maxChunks) (hsmall : ∀ c ∈ f.chunks, c.data.length ≤ maxChunkBytes)
    (hsigns : mode ≠ .unsignedTrailer → ∃ s, signing = some s ∧
      s.Signs s.seedSignature (f.chunks ++ [f.last]))
    (hlength : ∃ text, oneHeader headers "x-amz-decoded-content-length" = .ok (some text) ∧
      parseU64 text = some f.body.length)
    (htrailers : mode ≠ .signed → ∃ declaration, oneHeader headers "x-amz-trailer" =
    .ok declaration ∧ TrailersSound mode signing (declaredTrailer declaration) f f.body)
    (hheaders : HeadersSound headers f.body) {pieces : List Bytes}
    (hwire : pieces.flatten = f.wire mode) :
    v.verify pieces = .ok (f.body, f.body.length) := by
  obtain ⟨_, decodedLength, declaration, declared, hdecoded, hdeclaration, hchecksum, hstate,
    hzero⟩ :=
    fromHeaders_ok h
  obtain ⟨length, trailer, signing', hnew, hparse, hdeclared, hsigning⟩ :=
    payloadState_chunked hmode hstate
  obtain ⟨hdecl, hverifier⟩ := checksumFromHeaders_ok hchecksum
  obtain ⟨text, htext, hvalue⟩ := hlength
  cases hdecoded.symm.trans htext
  simp only [parseDecodedLength, hvalue] at hparse
  obtain rfl : f.body.length = length := Except.ok.inj hparse
  have hbound : f.body.length ≤ maxWord 64 := Nat.le_sub_one_of_lt (parseU64_lt hvalue)
  have htrailers' : mode ≠ .signed →
      TrailersSound mode signing (declaredTrailer declaration) f f.body := by
    intro hm
    obtain ⟨declaration', hdeclaration', hsound⟩ := htrailers hm
    cases hdeclaration.symm.trans hdeclaration'
    exact hsound
  have hexpects := expects_new hformed hcount hsmall rfl hbound hsigning hsigns
    (fun hm => (hdeclared hm).1.trans hdecl) htrailers'
  obtain ⟨d, hrun, haccepts⟩ := AwsChunkedDecoder.run_framing hexpects
  refine verify_of_run (takes_of_fromHeaders h) hnew hzero hbound (hwire ▸ hrun) ?_
  by_cases hm : mode = .signed
  · -- the checksum, if there is one, is in a header
    subst hm
    obtain rfl := payloadState_signed hmode hstate
    refine finish_header haccepts (hformed.trailers rfl) rfl ?_
    intro c hc
    obtain ⟨c₀, hc₀, rfl⟩ := Option.map_eq_some_iff.mp hc
    obtain ⟨hempty, hexpected⟩ := checksum_of_headers hchecksum hheaders c₀ hc₀
    simpa only [ChecksumVerifier.update, hempty, nil_append] using hexpected
  · obtain ⟨name, algorithm, value, hname, halgorithm, hbase64, hunsigned, hsigned⟩ := htrailers' hm
    obtain ⟨algorithm', halgorithm', hc⟩ := hverifier name (hdecl.trans hname)
    cases halgorithm.symm.trans halgorithm'
    obtain rfl := header_of_declared hname halgorithm
    have hhead : f.trailers.head? = some (ascii algorithm.header, value) := by
      cases mode with
      | signed => exact absurd rfl hm
      | unsignedTrailer => rw [hunsigned rfl]; rfl
      | signedTrailer =>
        obtain ⟨_, _, _, hlist, _⟩ := hsigned rfl
        rw [hlist]
        rfl
    refine finish_trailer haccepts hhead rfl ?_ hbase64
    simp [hc, ChecksumVerifier.update]

end Complete

/-- Digests that tell nothing apart, with the base64 of one checksum. -/
abbrev zeroDigests : Digests :=
  { blankDigests with
    base64Decode := fun value => if value = ascii "AAAAAA==" then some (replicate 4 0) else none }

theorem lawful_zeroDigests : letI := zeroDigests; LawfulDigests := by
  let _ := zeroDigests
  refine ⟨fun _ => rfl, ?_, ?_, fun _ _ => rfl⟩
  · intro value bytes h
    obtain ⟨rfl, heq⟩ := Option.ite_none_right_eq_some.mp h
    cases heq
    decide +kernel
  · intro algorithm absorbed
    cases algorithm <;> rfl

/-- Three bytes in a chunk, signed, with a signed CRC32 trailer. -/
def signedFraming : Framing where
  chunks := [⟨ascii "3", some (replicate 64 0x30), ascii "abc"⟩]
  last := ⟨ascii "0", some (replicate 64 0x30), []⟩
  trailers := [(ascii "x-amz-checksum-crc32", ascii "AAAAAA=="),
    (AwsChunkedDecoder.signatureTrailer, replicate 64 0x30)]

/-- The signed body is accepted byte by byte. -/
theorem signed_body_complete : letI := zeroDigests
    ∃ v, fromHeaders trailerHeaders (ascii "STREAMING-AWS4-HMAC-SHA256-PAYLOAD-TRAILER")
      (some emptySigning) true = .ok v ∧
      v.verify ((signedFraming.wire .signedTrailer).map fun b => [b]) = .ok (ascii "abc", 3) := by
  let _ := zeroDigests
  let _ := lawful_zeroDigests
  have hv : fromHeaders trailerHeaders
      (ascii "STREAMING-AWS4-HMAC-SHA256-PAYLOAD-TRAILER") (some emptySigning) true = .ok
      ⟨.chunked (.new .signedTrailer 3 (some (ascii "x-amz-checksum-crc32")) emptySigning),
        some ⟨.crc32, [], none, true⟩, 0⟩ := by decide +kernel
  have hmode : streamingMode (ascii "STREAMING-AWS4-HMAC-SHA256-PAYLOAD-TRAILER") =
      some .signedTrailer := by decide +kernel
  have hformed : signedFraming.WellFormed .signedTrailer := by
    refine ⟨?_, ?_, by simp, by decide +kernel⟩
    · simp only [signedFraming, mem_singleton, forall_eq]
      exact ⟨⟨⟨by decide +kernel, by simp, fun _ => ⟨_, rfl, by decide +kernel⟩⟩,
        by decide +kernel⟩, by decide +kernel⟩
    · exact ⟨⟨⟨by decide +kernel, by simp, fun _ => ⟨_, rfl, by decide +kernel⟩⟩,
        by decide +kernel⟩, rfl⟩
  refine ⟨_, hv, verify_complete hv hmode hformed (by decide) ?_ (fun _ => ?_) ?_ (fun _ => ?_)
    ?_ ?_⟩
  · decide +kernel
  · exact ⟨_, rfl, by decide +kernel, by decide +kernel, trivial⟩
  · exact ⟨ascii "3", by decide +kernel, by decide +kernel⟩
  · refine ⟨some (ascii "x-amz-checksum-crc32"), by decide +kernel, ascii "x-amz-checksum-crc32",
      .crc32, ascii "AAAAAA==", by decide +kernel, by decide +kernel, by decide +kernel, by simp,
      fun _ => ?_⟩
    exact ⟨emptySigning, replicate 64 0x30, rfl, rfl, by decide +kernel⟩
  · -- the headers have no checksum
    intro algorithm name value hmem hvalue
    have hnone : ∀ e ∈ ChecksumAlgorithm.all, oneHeader trailerHeaders e.2 = .ok none := by
      decide +kernel
    cases (hnone _ hmem).symm.trans hvalue
  · decide +kernel

end S4.Integrity
