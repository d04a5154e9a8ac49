import S4.Lib.Fallible
import S4.Staging.Artifacts

/-!
# Staging — ReadBack

What the writer of an artifact has written, the reader returns.  The file behind the header is a row
of frames (`Frames`), one for each chunk; the reader takes a frame for its chunk when its length is
within the limit of the reader, which the writer does not know.  So an artifact is read back iff no
chunk is longer than a frame may be (`artifact_reads_back_iff`), beside limits on the header and the
number of chunks that no upload comes near.
-/

namespace S4.Staging

open Lib List Primitives EncryptedPartWriter EncryptedPartReader

variable {plaintext ciphertext rest : Bytes} {n : Nat} {dek : Key} {header : ArtifactHeader}
  {nonce : Nonce} {broken : Bool}

/-- The JSON of a header is read back, and no shorter text is read as a header. -/
structure ArtifactHeader.ReadsBack [Primitives] (header : ArtifactHeader) : Prop where
  nonempty : headerJson header ≠ []
  whole : parseHeader (headerJson header) = some header
  shorter : ∀ front, front <+: headerJson header → front ≠ headerJson header →
    parseHeader front = none

/-- A base64 text is decoded to its bytes. -/
def Base64ReadsBack [Primitives] : Prop :=
  ∀ bytes, base64Decode (base64Encode bytes) = some bytes

/-! ### Frames -/

/-- The bytes are a row of frames, one for each chunk, counted from `n`. -/
inductive Frames [Aead] (dek : Key) (header : ArtifactHeader) : Nat → List Bytes → Bytes →
    Prop where
  | nil (n : Nat) : Frames dek header n [] []
  | cons {n : Nat} {plaintext ciphertext rest : Bytes} {chunks : List Bytes} (nonce : Nonce)
      (h : Aead.encrypt dek nonce plaintext (artifactAad header n) = some ciphertext)
      (t : Frames dek header ((n + 1) % 2 ^ 64) chunks rest) :
      Frames dek header n (plaintext :: chunks)
        (be32 ciphertext.length ++ (nonce ++ ciphertext) ++ rest)

namespace EncryptedPartWriter

variable [Aead] {w w' : EncryptedPartWriter}

theorem write_ok {failure : Option ArtifactError} (h : w.write nonce failure plaintext = .ok w') :
    ∃ ciphertext, Aead.encrypt w.dek nonce plaintext (artifactAad w.header w.chunk) =
      some ciphertext ∧ w' = { w with
        file := w.file ++ (be32 ciphertext.length ++ (nonce ++ ciphertext))
        sizeBytes := w.sizeBytes + plaintext.length
        sha256 := w.sha256 ++ plaintext
        md5 := w.md5 ++ plaintext
        chunk := (w.chunk + 1) % 2 ^ 64 } := by
  rw [write] at h
  split at h
  · cases h
  next sizeBytes hsize =>
  split at h
  · cases h
  split at h
  · cases h
  next ciphertext hencrypt =>
  split at h
  · cases h
  · cases h
    exact ⟨ciphertext, hencrypt, by rw [checkedAdd_eq_some hsize]⟩

/-- **The writes append a row of frames.** -/
theorem writeAll_frames {writes : List (Nonce × Option ArtifactError × Bytes)}
    (h : w.writeAll writes = .ok w') :
    w'.header = w.header ∧ ∃ bytes, w'.file = w.file ++ bytes ∧
      Frames w.dek w.header w.chunk (writes.map (·.2.2)) bytes := by
  induction writes generalizing w with
  | nil =>
    cases h
    exact ⟨rfl, [], (append_nil _).symm, .nil _⟩
  | cons e writes ih =>
    obtain ⟨nonce, failure, plaintext⟩ := e
    rw [writeAll] at h
    obtain ⟨w₁, hwrite, h⟩ := bind_eq_ok.mp h
    obtain ⟨ciphertext, hencrypt, rfl⟩ := write_ok hwrite
    obtain ⟨hheader, bytes, hfile, hframes⟩ := ih h
    refine ⟨hheader, be32 ciphertext.length ++ (nonce ++ ciphertext) ++ bytes, ?_,
      .cons nonce hencrypt hframes⟩
    rw [hfile, append_assoc]

end EncryptedPartWriter

namespace EncryptedPartReader

variable [Aead] {r r' : EncryptedPartReader} {chunks : List Bytes}

omit [Aead] in
theorem readOrFail_append (front : Bytes) (h : front.length = n) (rest : Bytes)
    (broken : Bool) : readOrFail ⟨front ++ rest, broken⟩ n = .ok (front, ⟨rest, broken⟩) := by
  rw [readOrFail, Source.readExact_append front h]

omit [Aead] in
theorem readOrFail_ok {s s' : Source} {front : Bytes}
    (h : readOrFail s n = .ok (front, s')) : s.bytes = front ++ s'.bytes ∧ front.length = n := by
  rw [readOrFail] at h
  split at h
  · cases h
  · next hread =>
    cases h
    exact ⟨(Source.readExact_eq_ok hread).1, (Source.readExact_eq_ok hread).2.1⟩

variable [LawfulAead]

/-- What a chunk that is returned has passed. -/
theorem nextChunk_some (h : r.nextChunk = .ok (some plaintext, r')) :
    plaintext.length + tagLen ≤ maxEncryptedFrameBytes ∧ r'.chunk = r.chunk + 1 ∧
      r.chunk + 1 ≤ maxWord 64 := by
  rw [nextChunk] at h
  split at h
  · cases h
  split at h
  · cases h
  · cases h
  next length reader _ =>
  split at h
  · cases h
  next hlength =>
  obtain ⟨⟨nonce, reader₁⟩, _, h⟩ := bind_eq_ok.mp h
  obtain ⟨⟨ciphertext, reader₂⟩, hciphertext, h⟩ := bind_eq_ok.mp h
  simp only at h
  split at h
  · cases h
  next hdecrypt =>
  split at h
  · cases h
  next chunk hchunk =>
  cases h
  have hlen := LawfulAead.length_of_decrypt hdecrypt
  have hread := (readOrFail_ok hciphertext).2
  refine ⟨by omega, checkedAdd_eq_some hchunk, checkedAdd_le hchunk⟩

/-- Chunks that are returned fit the frames and the counter. -/
theorem Reads.fits (h : r.Reads chunks) :
    (∀ c ∈ chunks, c.length + tagLen ≤ maxEncryptedFrameBytes) ∧
      (r.chunk ≤ maxWord 64 → r.chunk + chunks.length ≤ maxWord 64) := by
  induction h with
  | done => simp
  | more hnext _ ih =>
    obtain ⟨hfits, hchunk, hle⟩ := nextChunk_some hnext
    refine ⟨forall_mem_cons.mpr ⟨hfits, ih.1⟩, fun _ => ?_⟩
    have := ih.2 (by omega)
    rw [length_cons]
    omega

theorem nextChunk_frame
    (hencrypt : Aead.encrypt dek nonce plaintext (artifactAad header n) = some ciphertext)
    (hfits : plaintext.length + tagLen ≤ maxEncryptedFrameBytes) (hn : n + 1 ≤ maxWord 64) :
    nextChunk ⟨⟨be32 ciphertext.length ++ (nonce ++ ciphertext) ++ rest, broken⟩, dek, header, n,
      false⟩ = .ok (some plaintext, ⟨⟨rest, broken⟩, dek, header, n + 1, false⟩) := by
  have hlen := length_of_encrypt hencrypt
  have hlimit : maxEncryptedFrameBytes < 2 ^ 32 := by decide
  have hlength : fromBe (be32 ciphertext.length) = ciphertext.length :=
    fromBe_be32_of_lt (by omega)
  have hbounds : ¬ (ciphertext.length < tagLen ∨ ciphertext.length > maxEncryptedFrameBytes) := by
    omega
  rw [append_assoc]
  simp [nextChunk, Source.readExact_append _ (length_be32 _), hlength, if_neg hbounds,
    readOrFail_append _ nonce.property, readOrFail_append _ rfl,
      LawfulAead.decrypt_encrypt hencrypt,
    checkedAdd_of_le hn, ok_bind]

/-- **A row of frames within the limits is read.** -/
theorem reads_of_frames {bytes : Bytes} (hframes : Frames dek header n chunks bytes)
    (hfits : ∀ c ∈ chunks, c.length + tagLen ≤ maxEncryptedFrameBytes)
    (hcount : n + chunks.length ≤ maxWord 64) :
    Reads ⟨⟨bytes, false⟩, dek, header, n, false⟩ chunks := by
  induction hframes with
  | nil => exact .done rfl
  | @cons n plaintext ciphertext rest chunks nonce hencrypt hrest ih =>
    rw [length_cons] at hcount
    have hn : (n + 1) % 2 ^ 64 = n + 1 := by
      have : maxWord 64 = 2 ^ 64 - 1 := rfl
      exact Nat.mod_eq_of_lt (by omega)
    rw [hn] at ih
    exact .more (nextChunk_frame hencrypt (hfits _ mem_cons_self) (by omega))
      (ih (fun c hc => hfits c (mem_cons_of_mem _ hc)) (by omega))

/-! ### The header -/

section Header

variable [Primitives] {identity : MultipartIdentity} {part : MultipartPart}
  {snapshot : MultipartSnapshot} {wrapping : KeyWrapping}

omit [Aead] [LawfulAead] in
/-- The reader opens behind a header that is read back. -/
theorem openPart_header (hheader : header.ReadsBack)
    (hfits : (headerJson header).length ≤ maxArtifactHeaderBytes)
    (hmatches : matchesPart header identity part snapshot = true) {wrapped : Bytes}
    (hwrapped : base64Decode header.wrappedDek = some wrapped)
    (hdek : wrapping.unwrap wrapped = .ok dek.val) (rest : Bytes) (broken : Bool) :
    openPart ⟨magic ++ (be32 (headerJson header).length ++ headerJson header) ++
      rest, broken⟩ identity part snapshot wrapping =
        .ok ⟨⟨rest, broken⟩, dek, header, 0, false⟩ := by
  have hlimit : maxArtifactHeaderBytes < 2 ^ 32 := by decide
  have hlength : fromBe (be32 (headerJson header).length) =
      (headerJson header).length := fromBe_be32_of_lt (by omega)
  have hpos := length_pos_of_ne_nil hheader.nonempty
  have hbounds : ¬ ((headerJson header).length = 0 ∨
      (headerJson header).length > maxArtifactHeaderBytes) := by omega
  have hcipher : newFromSlice dek.val = .ok dek := dif_pos dek.property
  rw [append_assoc, append_assoc]
  simp only [openPart, readOrFail_append _ rfl, readOrFail_append _ (length_be32 _), ne_eq,
    not_true_eq_false, if_false, hlength, if_neg hbounds, hheader.whole, hmatches,
      Bool.true_eq_false,
    hwrapped, hdek, hcipher, ok_bind, pure_eq_ok]

omit [Aead] [LawfulAead] in
/-- A header that is too long is not opened. -/
theorem header_fits_of_openPart (hheader : header.ReadsBack)
    (h : openPart ⟨magic ++ (be32 (headerJson header).length ++
      headerJson header) ++ rest, broken⟩ identity part snapshot wrapping = .ok r) :
    (headerJson header).length ≤ maxArtifactHeaderBytes := by
  by_contra hlong
  rw [append_assoc, append_assoc, openPart] at h
  simp only [readOrFail_append _ rfl, readOrFail_append _ (length_be32 _), bind, Except.bind, ne_eq,
    not_true_eq_false, if_false] at h
  split at h
  · cases h
  next hbounds =>
  split at h
  · cases h
  next e hread =>
  -- the length was cut, so what is read is not all of the header
  obtain ⟨front, s⟩ := e
  obtain ⟨hbytes, hlen⟩ := readOrFail_ok hread
  have hfront : front <+: headerJson header := by
    refine prefix_of_prefix_length_le ⟨s.bytes, hbytes.symm⟩ (prefix_append _ _) ?_
    omega
  have hne : front ≠ headerJson header := by
    rintro rfl
    omega
  simp only at h
  rw [hheader.shorter _ hfront hne] at h
  cases h

end Header

end EncryptedPartReader

/-! ### Artifacts -/

section Artifacts

variable [Primitives] [Aead] [LawfulAead] {env : EncryptedPartWriter.StartEnv}
  {identity : MultipartIdentity} {part : MultipartPart} {snapshot : MultipartSnapshot}
  {maxBytes : Nat} {wrapping : KeyWrapping} {w₀ w : EncryptedPartWriter}
  {writes : List (Nonce × Option ArtifactError × Bytes)} {failure : Option ArtifactError}
  {finished : FinishedPart}

omit [Aead] [LawfulAead] in
/-- The writer starts with a header that matches the part. -/
theorem start_ok (h : start env identity part.partNumber part.attempt snapshot
      maxBytes wrapping = .ok w₀) :
    w₀.file = magic ++ (be32 (headerJson w₀.header).length ++
      headerJson w₀.header) ∧ w₀.chunk = 0 ∧
    matchesPart w₀.header identity part snapshot = true ∧
    ∃ wrapped, w₀.header.wrappedDek = base64Encode wrapped ∧
      wrapping.wrap env.wrapNonce w₀.dek = .ok wrapped := by
  rw [start] at h
  split at h
  · cases h
  split at h
  · cases h
  split at h
  · cases h
  next wrapped hwrapped =>
  split at h
  · cases h
  · cases h
    refine ⟨rfl, rfl, ?_, wrapped, rfl, hwrapped⟩
    simp [matchesPart, headerOf]

/-- **Artifacts read back.**  When every call of the writer succeeds, the reader of the artifact
opens with the same identity, part and snapshot, and returns exactly the chunks that were written
and then `none`, if and only if the header and every chunk fit what the reader takes. -/
theorem artifact_reads_back_iff (hopens : wrapping.Opens) (hbase64 : Base64ReadsBack)
    (hstart : start env identity part.partNumber part.attempt snapshot maxBytes
      wrapping = .ok w₀) (hheader : w₀.header.ReadsBack) (hwrite : w₀.writeAll writes = .ok w)
    (hfinish : w.finish failure = .ok finished) :
    (∃ r, openPart ⟨finished.artifact, false⟩ identity part snapshot wrapping =
        .ok r ∧ r.Reads (writes.map (·.2.2))) ↔
      (headerJson w₀.header).length ≤ maxArtifactHeaderBytes ∧
      (∀ chunk ∈ writes.map (·.2.2), chunk.length + tagLen ≤ maxEncryptedFrameBytes) ∧
      writes.length < 2 ^ 64 := by
  obtain ⟨hfile, hzero, hmatches, wrapped, hwrapped, hwrap⟩ := start_ok hstart
  obtain ⟨_, bytes, hbytes, hframes⟩ := writeAll_frames hwrite
  have hartifact : finished.artifact = w₀.file ++ bytes := by
    rw [← hbytes]
    cases failure with
    | some => cases hfinish
    | none =>
      cases hfinish
      rfl
  have hword : maxWord 64 = 2 ^ 64 - 1 := rfl
  rw [hartifact, hfile]
  constructor
  · rintro ⟨r, hopen, hreads⟩
    have hlength := header_fits_of_openPart hheader hopen
    have hdecoded : base64Decode w₀.header.wrappedDek = some wrapped := by
      rw [hwrapped, hbase64]
    rw [openPart_header hheader hlength hmatches hdecoded (hopens _ _ _ hwrap)]
      at hopen
    cases hopen
    obtain ⟨hfits, hcount⟩ := hreads.fits
    have hcount := hcount (Nat.zero_le _)
    rw [length_map] at hcount
    exact ⟨hlength, hfits, by simp only at hcount; omega⟩
  · rintro ⟨hlength, hfits, hcount⟩
    have hdecoded : base64Decode w₀.header.wrappedDek = some wrapped := by
      rw [hwrapped, hbase64]
    refine ⟨_, openPart_header hheader hlength hmatches hdecoded
      (hopens _ _ _ hwrap) bytes false, ?_⟩
    rw [hzero] at hframes
    refine reads_of_frames hframes hfits ?_
    rw [length_map]
    omega

omit [Primitives] [LawfulAead] in
/-- A chunk within the quota that is encrypted is written. -/
theorem write_of_encrypt {nonce : Nonce}
    (hsize : w.sizeBytes + plaintext.length ≤ w.maxBytes) (hmax : w.maxBytes ≤ maxWord 64)
    (hencrypt : Aead.encrypt w.dek nonce plaintext (artifactAad w.header w.chunk) =
    some ciphertext) :
    ∃ w', w.write nonce none plaintext = .ok w' := by
  simp only [write, checkedAdd_of_le (hsize.trans hmax), hsize.not_gt, if_false,
    hencrypt]
  exact ⟨_, rfl⟩

end Artifacts

/-! ### A chunk that is not read back -/

/-- An AEAD that only appends a tag. -/
abbrev plainAead : Aead where
  encrypt _ _ message _ := some (message ++ replicate tagLen 0)
  decrypt _ _ ciphertext _ :=
    if tagLen ≤ ciphertext.length then some (ciphertext.take (ciphertext.length - tagLen)) else none

theorem lawful_plainAead : letI := plainAead; LawfulAead := by
  let _ := plainAead
  refine ⟨?_, ?_⟩
  · intro key nonce message associated ciphertext h
    cases h
    change (if tagLen ≤ (message ++ replicate tagLen 0).length then _ else _) = _
    rw [if_pos (by simp)]
    simp
  · intro key nonce message associated ciphertext h
    obtain ⟨hle, heq⟩ := Option.ite_none_right_eq_some.mp h
    cases heq
    rw [length_take]
    omega

def drawnKey : Key := ⟨replicate 32 1, rfl⟩
def drawnNonce : Nonce := ⟨replicate 12 2, rfl⟩
def drawnEnv : EncryptedPartWriter.StartEnv := ⟨drawnKey, drawnNonce, none, none⟩
def drawnIdentity : MultipartIdentity := ⟨"tenant", "policy", "bucket", "key", "upload"⟩
def drawnPart : MultipartPart := ⟨"upload", 1, 1, "artifact", "", "", 0, 0⟩

/-- The header that the writer of this part writes. -/
def drawnHeader : ArtifactHeader where
  wrappedDek := replicate 12 2 ++ (replicate 32 1 ++ replicate 16 0)
  tenantId := "tenant"
  uploadId := "upload"
  partNumber := 1
  attempt := 1
  metadataDigest := []

/-- Primitives that know one header. -/
abbrev drawnPrimitives : Primitives where
  sha256 _ := []
  md5 _ := []
  base64Encode bytes := bytes
  base64Decode bytes := some bytes
  snapshotJson _ := []
  headerJson _ := ascii "\x7b\x7d"
  parseHeader bytes := if bytes = ascii "\x7b\x7d" then some drawnHeader else none

/-- The local wrapping under that key. -/
def drawnWrapping : KeyWrapping :=
  letI := plainAead
  LocalKeyWrapping.toKeyWrapping ⟨drawnKey, true⟩

/-- The writer of the part, with room for sixteen MiB. -/
def drawnWriter : EncryptedPartWriter where
  file := magic ++ (be32 2 ++ ascii "\x7b\x7d")
  dek := drawnKey
  header := drawnHeader
  chunk := 0
  sizeBytes := 0
  maxBytes := 16 * 1024 * 1024
  sha256 := []
  md5 := []

theorem start_drawnWriter : letI := drawnPrimitives
    start drawnEnv drawnIdentity drawnPart.partNumber drawnPart.attempt ⟨0⟩
      (16 * 1024 * 1024) drawnWrapping = .ok drawnWriter := rfl

/-- Two chunks, one of them empty, come back. -/
theorem two_chunks_read_back : letI := drawnPrimitives
    letI := plainAead
    ∃ w finished r, drawnWriter.writeAll
        [(drawnNonce, none, ascii "ab"), (drawnNonce, none, [])] = .ok w ∧
      w.finish none = .ok finished ∧
      openPart ⟨finished.artifact, false⟩ drawnIdentity drawnPart ⟨0⟩
        drawnWrapping = .ok r ∧ r.Reads [ascii "ab", []] := by
  let _ := drawnPrimitives
  let _ := plainAead
  let _ := lawful_plainAead
  have hheader : drawnHeader.ReadsBack := by
    refine ⟨by decide +kernel, by decide +kernel, ?_⟩
    intro front _ hne
    exact if_neg hne
  obtain ⟨w, hwrite⟩ : ∃ w, drawnWriter.writeAll
      [(drawnNonce, none, ascii "ab"), (drawnNonce, none, [])] = .ok w := ⟨_, rfl⟩
  obtain ⟨finished, hfinish⟩ : ∃ finished, w.finish none = .ok finished := ⟨_, rfl⟩
  obtain ⟨r, hopen, hreads⟩ := (artifact_reads_back_iff (LocalKeyWrapping.opens ⟨drawnKey, true⟩)
    (fun _ => rfl) start_drawnWriter hheader hwrite hfinish).mpr
    ⟨by decide +kernel, by decide +kernel, by decide⟩
  exact ⟨w, finished, r, hwrite, hfinish, hopen, hreads⟩

/-- **A chunk of more than eight MiB is staged and never read back.** -/
theorem long_chunk_not_read_back : letI := drawnPrimitives
    letI := plainAead
    ∃ w finished, start drawnEnv drawnIdentity drawnPart.partNumber
        drawnPart.attempt ⟨0⟩ (16 * 1024 * 1024) drawnWrapping = .ok drawnWriter ∧
      drawnWriter.writeAll [(drawnNonce, none, replicate (8 * 1024 * 1024 + 1) 0)] = .ok w ∧
      w.finish none = .ok finished ∧
      ¬ ∃ r, openPart ⟨finished.artifact, false⟩ drawnIdentity drawnPart ⟨0⟩
        drawnWrapping = .ok r ∧ r.Reads [replicate (8 * 1024 * 1024 + 1) 0] := by
  let _ := drawnPrimitives
  let _ := plainAead
  let _ := lawful_plainAead
  have hlong : (replicate (8 * 1024 * 1024 + 1) (0 : UInt8)).length = 8 * 1024 * 1024 + 1 :=
    length_replicate
  generalize replicate (8 * 1024 * 1024 + 1) (0 : UInt8) = chunk at hlong ⊢
  have hsize : drawnWriter.sizeBytes + chunk.length ≤ drawnWriter.maxBytes := by
    rw [hlong]
    decide
  obtain ⟨w, hw⟩ := write_of_encrypt hsize (by decide) rfl
  refine ⟨w, _, start_drawnWriter, ?_, rfl, ?_⟩
  · rw [writeAll, hw]
    rfl
  · rintro ⟨r, _, hreads⟩
    have hfits := hreads.fits.1 chunk mem_cons_self
    rw [hlong] at hfits
    exact absurd hfits (by decide)

end S4.Staging
