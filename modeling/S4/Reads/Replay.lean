import S4.Lib.Fallible
import S4.Reads.Spool
import S4.Staging.ReadBack

/-!
# Reads — Replay

What the spool of a read delivers.  A call of the writer keeps the file a row of sealed frames, all
of them full, with less than a frame pending (`Buffered`); `intoBody` adds the pending one
(`Spooled`).

**Round trip** (`spool_round_trip`).  The body of an untouched file delivers what was written, and
the file stays within the reservation that `start` has made for it.

**Integrity** (`replayed_spool_intact_iff`).  Under an ideal AEAD a file that is replayed to its end
is a row of the first frames (`Delivers.frames`), but of any number of them: only the end of the
file ends the stream.  So a changed file that is replayed without an error gives what was written,
unless it was cut off behind a whole number of full frames.
-/

namespace S4.Reads

open Lib List Nat EncryptedReadSpool
open Sinks (SpoolQuota)
open Staging (Bytes Key Nonce drawnKey drawnNonce plainAead lawful_plainAead)
open Transaction (TransactionError)

variable {plaintext : Bytes}

/-! ### What the writer has written -/

/-- The log is what the frames of the file hold, each under its number. -/
structure Sealing [Aead] (key : Key) (log : List Sealed) : Prop where
  associated : ∀ i e, log[i]? = some e → e.associated = be64 i
  nonce : ∀ e ∈ log, e.nonce.length = nonceBytes
  encrypted : ∀ e ∈ log, Aead.encrypt key e.nonce e.message e.associated = some e.ciphertext

/-- Between two calls: the file is a row of full frames, and less than a frame is pending. -/
structure Buffered [Aead] (max : Nat) (s : EncryptedReadSpool) (written : Bytes) : Prop where
  sealing : Sealing s.key s.log
  file : s.file = some (s.log.flatMap frameOf)
  count : s.chunkNumber = s.log.length
  full : ∀ e ∈ s.log, e.message.length = plaintextFrameBytes
  content : s.log.flatMap (·.message) ++ s.pending = written
  pending : s.pending.length < plaintextFrameBytes
  limit : s.maxObjectBytes = max
  within : written.length ≤ s.bytes
  bounded : s.bytes ≤ max

/-- Behind the full frames of a closed file stands at most one that is shorter, and not empty. -/
structure Spooled [Aead] (max : Nat) (r : Replay) (written : Bytes) : Prop where
  sealing : Sealing r.key r.log
  file : r.file = r.log.flatMap frameOf
  content : r.log.flatMap (·.message) = written
  frames : ∃ front last, r.log = front ++ last ∧ last.length ≤ 1 ∧
    (∀ e ∈ front, e.message.length = plaintextFrameBytes) ∧
    ∀ e ∈ last, 0 < e.message.length ∧ e.message.length < plaintextFrameBytes
  bounded : written.length ≤ max

variable [Aead] {env : FrameEnv} {s s' : EncryptedReadSpool} {max j : Nat} {written chunk : Bytes}
  {log : List Sealed} {e : Sealed} {r : Replay}

theorem Sealing.append {key : Key} (h : Sealing key log)
    (ha : e.associated = be64 log.length) (hn : e.nonce.length = nonceBytes)
    (he : Aead.encrypt key e.nonce e.message e.associated = some e.ciphertext) :
    Sealing key (log ++ [e]) := by
  refine ⟨?_, ?_, ?_⟩
  · intro i e' hi
    rcases lt_trichotomy i log.length with hlt | rfl | hgt
    · rw [List.getElem?_append_left hlt] at hi
      exact h.associated i e' hi
    · rw [List.getElem?_concat_length] at hi
      cases hi
      exact ha
    · rw [List.getElem?_eq_none (by simp; omega)] at hi
      cases hi
  · simpa [or_imp, forall_and, hn] using h.nonce
  · simpa [or_imp, forall_and, he] using h.encrypted

theorem writeFrame_ok (h : s.writeFrame env plaintext = .ok s') :
    ∃ file e, s.file = some file ∧ e.message = plaintext ∧ e.nonce.length = nonceBytes ∧
      e.associated = be64 s.chunkNumber ∧
      Aead.encrypt s.key e.nonce e.message e.associated = some e.ciphertext ∧
      s' = { s with
        file := some (file ++ frameOf e)
        chunkNumber := satAdd 64 s.chunkNumber 1
        log := s.log ++ [e] } := by
  simp only [writeFrame] at h
  split at h
  · cases h
  next ciphertext hencrypt =>
  split at h
  · cases h
  next file hfile =>
  split at h
  · cases h
  · cases h
    exact ⟨file, ⟨_, plaintext, _, ciphertext⟩, hfile, rfl, (env.nonce _).property, rfl, hencrypt,
      rfl⟩

section

variable (h : Buffered max s written)

include h

theorem Buffered.length :
    written.length = s.log.length * plaintextFrameBytes + s.pending.length := by
  rw [← h.content, length_append, length_flatMap_of_forall h.full]

theorem Buffered.takePending :
    Buffered max { s with pending := [] } (s.log.flatMap (·.message)) where
  sealing := h.sealing
  file := h.file
  count := h.count
  full := h.full
  content := append_nil _
  pending := show 0 < plaintextFrameBytes by decide
  limit := h.limit
  within := by
    refine le_trans ?_ h.within
    rw [← h.content, length_append]
    exact le_add_right _ _
  bounded := h.bounded

variable (hmax : max ≤ maxWord 64)

include hmax

/-- The number of a frame does not reach the largest word. -/
theorem Buffered.count_lt : s.log.length < maxWord 64 := by
  have hlength := h.length
  have hwithin := h.within
  have hbounded := h.bounded
  have : maxWord 64 = 2 ^ 64 - 1 := rfl
  simp only [plaintextFrameBytes] at hlength
  omega

theorem Buffered.writeFrame_ok (hw : s.writeFrame env chunk = .ok s') :
    ∃ e, e.message = chunk ∧ Sealing s.key (s.log ++ [e]) ∧
      s' = { s with
        file := some ((s.log ++ [e]).flatMap frameOf)
        chunkNumber := (s.log ++ [e]).length
        log := s.log ++ [e] } := by
  obtain ⟨file, e, hfile, hmessage, hnonce, hassociated, hencrypt, rfl⟩ := Reads.writeFrame_ok hw
  have hcount := h.count_lt hmax
  refine ⟨e, hmessage, h.sealing.append (h.count ▸ hassociated) hnonce hencrypt, ?_⟩
  rw [h.file] at hfile
  cases hfile
  simp [satAdd, h.count, succ_le_of_lt hcount]

/-- **A full frame is written** behind the others. -/
theorem Buffered.writeFrame (hp : s.pending = []) (hc : chunk.length = plaintextFrameBytes)
    (hfits : (written ++ chunk).length ≤ s.bytes) (hw : s.writeFrame env chunk = .ok s') :
    Buffered max s' (written ++ chunk) ∧ s'.pending = [] ∧ s'.bytes = s.bytes := by
  obtain ⟨e, rfl, hsealing, rfl⟩ := h.writeFrame_ok hmax hw
  refine ⟨⟨hsealing, rfl, rfl, ?_, ?_, ?_, h.limit, hfits, h.bounded⟩, hp, rfl⟩
  · simpa [or_imp, forall_and, hc] using h.full
  · simp [← h.content, hp]
  · exact h.pending

/-- **The full frames of what remains are written**, and the rest is kept. -/
theorem Buffered.writeFull {remaining : Bytes}
    (hp : s.pending = [] ∨ remaining = []) (hfits : (written ++ remaining).length ≤ s.bytes)
    (hw : s.writeFull env remaining = .ok s') :
    Buffered max s' (written ++ remaining) ∧ s'.bytes = s.bytes := by
  have hpos : 0 < plaintextFrameBytes := by decide
  induction hn : remaining.length using Nat.strong_induction_on generalizing s written
    remaining with
  | _ n ih =>
  rw [writeFull] at hw
  split at hw
  · next hle =>
    obtain ⟨s₁, hw₁, hw⟩ := bind_eq_ok.mp hw
    have hp : s.pending = [] := by
      refine hp.resolve_right ?_
      rintro rfl
      exact absurd hle (by decide)
    have hsplit := take_append_drop plaintextFrameBytes remaining
    have hfits' : (written ++ remaining.take plaintextFrameBytes).length ≤ s.bytes := by
      refine le_trans ?_ hfits
      simp only [length_append, length_take]
      omega
    obtain ⟨h₁, hp₁, hb₁⟩ := h.writeFrame hmax hp (length_take_of_le hle) hfits' hw₁
    rw [← hsplit, ← append_assoc] at hfits ⊢
    rw [← hb₁] at hfits
    obtain ⟨h', hb⟩ := ih (remaining.drop plaintextFrameBytes).length
      (by rw [length_drop]; omega) h₁ (.inl hp₁) hfits hw rfl
    exact ⟨h', hb.trans hb₁⟩
  · next hlt =>
    cases hw
    refine ⟨⟨h.sealing, h.file, h.count, h.full, ?_, ?_, h.limit, hfits, h.bounded⟩, rfl⟩
    · rw [← h.content, append_assoc]
    · rcases hp with hp | rfl
      · simpa [hp] using hlt
      · simpa using h.pending

/-- **The pending frame is filled**, and written when it is full. -/
theorem Buffered.fillPending {rest : Bytes} (hfits : (written ++ plaintext).length ≤ s.bytes)
    (hw : s.fillPending env plaintext = .ok (s', rest)) :
    ∃ front, plaintext = front ++ rest ∧ Buffered max s' (written ++ front) ∧
      (s'.pending = [] ∨ rest = []) ∧ s'.bytes = s.bytes := by
  rw [EncryptedReadSpool.fillPending] at hw
  split at hw
  · next hp =>
    cases hw
    exact ⟨[], rfl, by rwa [append_nil], .inl hp, rfl⟩
  next hp =>
  simp only at hw
  generalize htake : min (plaintextFrameBytes - s.pending.length) plaintext.length = take at hw
  have hsplit := take_append_drop take plaintext
  have hfits' : (written ++ plaintext.take take).length ≤ s.bytes := by
    refine le_trans ?_ hfits
    simp only [length_append, length_take]
    omega
  have hcontent : written ++ plaintext.take take =
      s.log.flatMap (·.message) ++ (s.pending ++ plaintext.take take) := by
    rw [← h.content, append_assoc]
  split at hw
  · next hfull =>
    obtain ⟨s₁, hflush, hw⟩ := bind_eq_ok.mp hw
    cases hw
    rw [EncryptedReadSpool.flushPending, if_neg (by simp [hp])] at hflush
    rw [hcontent] at hfits'
    obtain ⟨h', hp', hb⟩ := h.takePending.writeFrame hmax rfl hfull hfits' hflush
    exact ⟨plaintext.take take, hsplit.symm, hcontent ▸ h', .inl hp', hb⟩
  · next hshort =>
    cases hw
    have hlen : (s.pending ++ plaintext.take take).length < plaintextFrameBytes := by
      have := h.pending
      simp only [length_append, length_take] at hshort ⊢
      omega
    refine ⟨plaintext.take take, hsplit.symm,
      ⟨h.sealing, h.file, h.count, h.full, hcontent.symm, hlen, h.limit, hfits', h.bounded⟩,
      .inr ?_, rfl⟩
    rw [length_append, length_take] at hlen
    exact drop_eq_nil_of_le (by omega)

theorem Buffered.write (hb : s.bytes = written.length) (hw : s.write env plaintext = .ok s') :
    Buffered max s' (written ++ plaintext) ∧ s'.bytes = (written ++ plaintext).length := by
  rw [EncryptedReadSpool.write] at hw
  split at hw
  · cases hw
  next next hnext =>
  split at hw
  · cases hw
  next hle =>
  have hbytes : next = (written ++ plaintext).length := by
    rw [checkedAdd_eq_some hnext, length_append, hb]
  obtain ⟨⟨s₁, rest⟩, hfill, hfull⟩ := bind_eq_ok.mp hw
  have h₀ : Buffered max { s with bytes := next } written :=
    ⟨h.sealing, h.file, h.count, h.full, h.content, h.pending, h.limit,
      by rw [hbytes, length_append]; exact le_add_right _ _,
      h.limit ▸ le_of_not_gt hle⟩
  obtain ⟨front, rfl, h₁, hp, hb₁⟩ := h₀.fillPending hmax hbytes.ge hfill
  rw [← append_assoc] at hbytes ⊢
  obtain ⟨h', hb'⟩ := h₁.writeFull hmax hp (by rw [hb₁]; exact hbytes.ge) hfull
  exact ⟨h', (hb'.trans hb₁).trans hbytes⟩

/-- **The writes keep the file a row of full frames.** -/
theorem Buffered.writeAll (hb : s.bytes = written.length) {writes : List Bytes}
    (hw : s.writeAll env writes = .ok s') : Buffered max s' (written ++ writes.flatten) := by
  induction writes generalizing s written with
  | nil =>
    cases hw
    rwa [flatten_nil, append_nil]
  | cons plaintext writes ih =>
    obtain ⟨s₁, hw₁, hw⟩ := bind_eq_ok.mp hw
    obtain ⟨h₁, hb₁⟩ := h.write hmax hb hw₁
    rw [flatten_cons, ← append_assoc]
    exact ih h₁ hb₁ hw

end

omit [Aead] in
theorem diskReservation_ok {reserved : Nat} (h : diskReservation max = .ok reserved) :
    max ≤ maxWord 64 ∧ reserved =
      max + (max + (plaintextFrameBytes - 1)) / plaintextFrameBytes * frameOverheadBytes := by
  simp only [diskReservation] at h
  generalize htotal : (checkedAdd 64 max (plaintextFrameBytes - 1) >>= _) = total at h
  cases total with
  | none => cases h
  | some =>
    cases h
    obtain ⟨n, hn, h⟩ := Option.bind_eq_some_iff.mp htotal
    obtain ⟨overhead, hoverhead, h⟩ := Option.bind_eq_some_iff.mp h
    have hle := checkedAdd_le h
    refine ⟨by omega, ?_⟩
    rw [checkedAdd_eq_some h, checkedMul_eq_some hoverhead, checkedAdd_eq_some hn]

theorem start_ok {senv : StartEnv} {quota : SpoolQuota}
    (h : (start senv max quota).1 = .ok s) :
    Buffered max s [] ∧ s.bytes = 0 ∧ ∃ reserved, diskReservation max = .ok reserved := by
  rw [start] at h
  split at h
  · cases h
  split at h
  · cases h
  next reserved hreserved =>
  split at h
  · cases h
  split at h
  · cases h
  · cases h
  · cases h
    exact ⟨⟨⟨by simp, by simp, by simp⟩, rfl, rfl, by simp, rfl,
      show 0 < plaintextFrameBytes by decide, rfl, le_rfl, zero_le _⟩, rfl, reserved, hreserved⟩

/-- **What is pending becomes the last frame.** -/
theorem Buffered.intoBody (h : Buffered max s written) (hmax : max ≤ maxWord 64)
    {sync : Option String} (hr : s.intoBody env sync = .ok r) : Spooled max r written := by
  rw [EncryptedReadSpool.intoBody] at hr
  obtain ⟨s', hflush, hclose⟩ := bind_eq_ok.mp hr
  obtain ⟨hfile, hkey, hlog⟩ : s'.file = some r.file ∧ s'.key = r.key ∧ s'.log = r.log := by
    split at hclose
    · cases hclose
    · cases hclose
    · next file hfile =>
      cases hclose
      exact ⟨hfile, rfl, rfl⟩
  have hwritten := h.within.trans h.bounded
  rw [EncryptedReadSpool.flushPending] at hflush
  split at hflush
  · next hp =>
    cases hflush
    rw [h.file, hlog] at hfile
    refine ⟨hkey ▸ hlog ▸ h.sealing, (Option.some.inj hfile).symm, ?_,
      ⟨r.log, [], by simp, by simp, hlog ▸ h.full, by simp⟩, hwritten⟩
    rw [← h.content, hp, append_nil, hlog]
  · next hp =>
    obtain ⟨e, hmessage, hsealing, rfl⟩ := h.takePending.writeFrame_ok hmax hflush
    simp only at hfile hkey hlog hsealing
    rw [hlog] at hfile
    refine ⟨hkey ▸ hlog ▸ hsealing, (Option.some.inj hfile).symm, ?_,
      ⟨s.log, [e], hlog.symm, by simp, h.full, ?_⟩, hwritten⟩
    · simp [← h.content, hmessage, ← hlog]
    · simpa [hmessage, length_pos_iff, hp] using h.pending

/-! ### What a replay delivers -/

section Reader

variable {key : Key} {n : Nat} {file file' : Source} {plaintext : Bytes} {chunks : List Bytes}
  {row : List Sealed}

omit [Aead] in
theorem readOrFail_append {n : Nat} (front : Bytes) (h : front.length = n) (rest : Bytes)
    (broken : Bool) : readOrFail ⟨front ++ rest, broken⟩ n = .ok (front, ⟨rest, broken⟩) := by
  rw [readOrFail, Source.readExact_append front h]
  rfl

omit [Aead] in
theorem readOrFail_ok {front : Bytes} (h : readOrFail file n = .ok (front, file')) :
    file.bytes = front ++ file'.bytes ∧ front.length = n := by
  rw [readOrFail] at h
  cases hread : file.readExact n with
  | error =>
    rw [hread] at h
    cases h
  | ok =>
    rw [hread] at h
    cases h
    exact ⟨(Source.readExact_eq_ok hread).1, (Source.readExact_eq_ok hread).2.1⟩

/-- The frame can be opened as the one of the number. -/
structure Opens (key : Key) (n : Nat) (e : Sealed) : Prop where
  fits : e.message.length ≤ plaintextFrameBytes
  nonce : e.nonce.length = nonceBytes
  ciphertext : e.ciphertext.length = e.message.length + tagLen
  decrypts : Aead.decrypt key e.nonce e.ciphertext (be64 n) = some e.message

omit [Aead] in
theorem length_frameOf (hn : e.nonce.length = nonceBytes)
    (hc : e.ciphertext.length = e.message.length + tagLen) :
    (frameOf e).length = e.message.length + frameOverheadBytes := by
  simp only [frameOf, length_append, length_be32, hn, hc, frameOverheadBytes, tagLen]
  omega

theorem nextFrame_frame (h : Opens key n e) {rest : Bytes} :
    nextFrame key n ⟨frameOf e ++ rest, false⟩ = .ok (some (e.message, ⟨rest, false⟩)) := by
  have hlimit : plaintextFrameBytes + 16 < 2 ^ 32 := by decide
  have hfits := h.fits
  have hlength : fromBe (be32 e.message.length) = e.message.length := fromBe_be32_of_lt (by omega)
  have hsat : satAdd 64 e.message.length 16 = e.ciphertext.length := by
    rw [satAdd, h.ciphertext, tagLen, maxWord]
    omega
  have hne : ¬ ((be32 e.message.length ++ (e.nonce ++ (e.ciphertext ++ rest))) = [] ∧ True) := by
    simp [be32]
  rw [frameOf, append_assoc, append_assoc]
  simp only [nextFrame, hne, if_false, readOrFail_append _ (length_be32 _), hlength, hfits.not_gt,
    readOrFail_append _ h.nonce, hsat, readOrFail_append _ rfl, h.decrypts, ok_bind]

theorem nextFrame_none (h : nextFrame key n file = .ok none) : file.bytes = [] := by
  rw [nextFrame] at h
  split at h
  · next hend => exact hend.1
  obtain ⟨⟨length, file₁⟩, _, h⟩ := bind_eq_ok.mp h
  simp only at h
  split at h
  · cases h
  obtain ⟨⟨nonce, file₂⟩, _, h⟩ := bind_eq_ok.mp h
  obtain ⟨⟨ciphertext, file₃⟩, _, h⟩ := bind_eq_ok.mp h
  simp only at h
  split at h <;> cases h

/-- A frame that is delivered stood at the front, and has been opened. -/
theorem nextFrame_some (h : nextFrame key n file = .ok (some (plaintext, file'))) :
    ∃ nonce ciphertext : Bytes, ciphertext.length < 2 ^ 32 ∧
      file.bytes = be32 (ciphertext.length - tagLen) ++ (nonce ++ ciphertext) ++ file'.bytes ∧
      Aead.decrypt key nonce ciphertext (be64 n) = some plaintext := by
  rw [nextFrame] at h
  split at h
  · cases h
  obtain ⟨⟨length, file₁⟩, hlength, h⟩ := bind_eq_ok.mp h
  simp only at h
  split at h
  · cases h
  next hfits =>
  obtain ⟨⟨nonce, file₂⟩, hnonce, h⟩ := bind_eq_ok.mp h
  obtain ⟨⟨ciphertext, file₃⟩, hciphertext, h⟩ := bind_eq_ok.mp h
  simp only at h
  split at h
  · cases h
  next hdecrypt =>
  cases h
  obtain ⟨hbytes, hfour⟩ := readOrFail_ok hlength
  obtain ⟨hbytes₁, _⟩ := readOrFail_ok hnonce
  obtain ⟨hbytes₂, hlen⟩ := readOrFail_ok hciphertext
  rw [satAdd, maxWord] at hlen
  have hlimit : plaintextFrameBytes + 16 < 2 ^ 32 := by decide
  have htag : tagLen = 16 := rfl
  refine ⟨nonce, ciphertext, by omega, ?_, hdecrypt⟩
  have hlen₀ : ciphertext.length - tagLen = fromBe length := by omega
  rw [hlen₀, be32_fromBe hfour, hbytes, hbytes₁, hbytes₂]
  simp

/-- **A row of frames that can be opened is delivered to its end.** -/
theorem delivers_frames (h : ∀ i e, row[i]? = some e → Opens key (n + i) e)
    (hn : n + row.length ≤ maxWord 64) :
    Delivers key n ⟨row.flatMap frameOf, false⟩ (row.map (·.message)) .ended := by
  induction row generalizing n with
  | nil => exact .ended (if_pos ⟨rfl, rfl⟩)
  | cons e row ih =>
    rw [length_cons] at hn
    have hsat : satAdd 64 n 1 = n + 1 := min_eq_left (by omega)
    refine .frame (nextFrame_frame (h 0 e rfl)) ?_
    rw [hsat]
    refine ih (fun i e' hi => ?_) (by omega)
    rw [add_assoc, add_comm 1 i]
    exact h (i + 1) e' hi

/-- A replay that is not cancelled can go only one way. -/
theorem Delivers.unique {ending ending' : Ending} {chunks' : List Bytes}
    (h : Delivers key n file chunks ending) (hc : ending ≠ .cancelled)
    (h' : Delivers key n file chunks' ending') (hc' : ending' ≠ .cancelled) :
    ending' = ending ∧ chunks' = chunks := by
  induction h generalizing chunks' with
  | cancelled | dropped _ => exact absurd rfl hc
  | ended hnext | failed hnext =>
    cases h' with
    | cancelled | dropped _ => exact absurd rfl hc'
    | ended hnext' | failed hnext' | frame hnext' _ =>
      rw [hnext] at hnext'
      cases hnext'
      try exact ⟨rfl, rfl⟩
  | frame hnext _ ih =>
    cases h' with
    | cancelled | dropped _ => exact absurd rfl hc'
    | ended hnext' | failed hnext' =>
      rw [hnext] at hnext'
      cases hnext'
    | frame hnext' ht' =>
      rw [hnext] at hnext'
      cases hnext'
      obtain ⟨hending, hchunks⟩ := ih hc ht'
      exact ⟨hending, congrArg _ hchunks⟩

/-- **A replay that ends has met the first frames of the log**, in order. -/
theorem Delivers.frames (hideal : IdealAead key log)
    (hassociated : ∀ i e, log[i]? = some e → e.associated = be64 i) (hlength : log.length < 2 ^ 64)
    (h : Delivers key n file chunks .ended) (hn : n ≤ log.length) :
    ∃ j, file.bytes = ((log.drop n).take j).flatMap frameOf ∧
      chunks = ((log.drop n).take j).map (·.message) := by
  generalize hending : Ending.ended = ending at h
  induction h with
  | cancelled | failed _ | dropped _ => cases hending
  | ended hnext => exact ⟨0, nextFrame_none hnext, rfl⟩
  | @frame n file file' plaintext rest ending hnext _ ih =>
    obtain ⟨nonce, ciphertext, _, hbytes, hdecrypt⟩ := nextFrame_some hnext
    have hmem := (hideal.decrypt_iff ..).mp hdecrypt
    -- the number of the frame is its place in the log
    obtain ⟨i, hi⟩ := mem_iff_getElem?.mp hmem
    have hlt : i < log.length := (List.getElem?_eq_some_iff.mp hi).1
    have hin : n = i := be64_inj (by omega) (by omega) (hassociated i _ hi)
    subst hin
    have hdrop : log.drop n = ⟨nonce, plaintext, be64 n, ciphertext⟩ :: log.drop (n + 1) := by
      rw [List.drop_eq_getElem_cons hlt, (List.getElem?_eq_some_iff.mp hi).2]
    have hlen := hideal.length_of_mem _ hmem
    have hsat : satAdd 64 n 1 = n + 1 := min_eq_left (by rw [maxWord]; omega)
    rw [hsat] at ih
    obtain ⟨j, hfile, hchunks⟩ := ih hlt hending
    refine ⟨j + 1, ?_, ?_⟩
    · rw [hbytes, hdrop, take_succ_cons, flatMap_cons, frameOf, hfile]
      simp only at hlen
      rw [hlen, Nat.add_sub_cancel]
    · rw [hdrop, take_succ_cons, map_cons, hchunks]

end Reader

/-! ### Round trip -/

section RoundTrip

variable {senv : StartEnv} {quota : SpoolQuota} {s₀ : EncryptedReadSpool} {writes : List Bytes}

/-- A spool that was started and written to is a row of full frames. -/
theorem buffered_of_start (hstart : (start senv max quota).1 = .ok s₀)
    (hwrites : s₀.writeAll env writes = .ok s) :
    max ≤ maxWord 64 ∧ Buffered max s writes.flatten := by
  obtain ⟨h₀, hzero, reserved, hreserved⟩ := start_ok hstart
  have hmax := (diskReservation_ok hreserved).1
  exact ⟨hmax, h₀.writeAll hmax hzero hwrites⟩

omit [Aead] in
/-- A row of frames takes its messages and the overhead of each frame. -/
theorem length_row {row : List Sealed} (hnonce : ∀ e ∈ row, e.nonce.length = nonceBytes)
    (hcipher : ∀ e ∈ row, e.ciphertext.length = e.message.length + tagLen) :
    (row.flatMap frameOf).length =
      (row.flatMap (·.message)).length + row.length * frameOverheadBytes := by
  induction row with
  | nil => rfl
  | cons e row ih =>
    rw [forall_mem_cons] at hnonce hcipher
    simp only [flatMap_cons, length_append, length_cons,
      length_frameOf hnonce.1 hcipher.1, ih hnonce.2 hcipher.2]
    rw [add_one_mul]
    omega

/-- The frames of a closed file are not empty, and fit. -/
theorem Spooled.fits (h : Spooled max r written) (he : e ∈ r.log) :
    0 < e.message.length ∧ e.message.length ≤ plaintextFrameBytes := by
  obtain ⟨front, last, hlog, _, hfull, hlast⟩ := h.frames
  rw [hlog] at he
  rcases mem_append.mp he with he | he
  · rw [hfull e he]
    exact ⟨by decide, le_rfl⟩
  · exact ⟨(hlast e he).1, (hlast e he).2.le⟩

/-- Every frame of a closed file but the last is full. -/
theorem Spooled.count (h : Spooled max r written) :
    written.length ≤ r.log.length * plaintextFrameBytes ∧
      r.log.length * plaintextFrameBytes ≤ written.length + (plaintextFrameBytes - 1) := by
  obtain ⟨front, last, hlog, hone, hfull, hlast⟩ := h.frames
  have hlength : r.log.length = front.length + last.length := by rw [hlog, length_append]
  have hmessages : last.length ≤ (last.flatMap (·.message)).length ∧
      (last.flatMap (·.message)).length ≤ last.length * plaintextFrameBytes := by
    rcases last with _ | ⟨e, rest⟩
    · exact ⟨le_rfl, zero_le _⟩
    · obtain rfl : rest = [] := eq_nil_of_length_eq_zero (by simpa using hone)
      have he := hlast e mem_cons_self
      simp only [flatMap_singleton, length_singleton]
      omega
  rw [← h.content, hlog, flatMap_append, length_append, length_append,
    length_flatMap_of_forall hfull]
  simp only [plaintextFrameBytes] at hmessages ⊢
  omega

theorem Spooled.count_lt (h : Spooled max r written) (hmax : max ≤ maxWord 64) :
    r.log.length < maxWord 64 := by
  have hcount := h.count.2
  have hbounded := h.bounded
  have : maxWord 64 = 2 ^ 64 - 1 := rfl
  simp only [plaintextFrameBytes] at hcount
  omega

variable [LawfulAead]

/-- **Round trip of the read spool.**  After any writes that all succeed the file is within the
reservation of the limit, and so is the closed file.  Its body, unless it is cancelled, is read to
its end without an error and delivers what was written. -/
theorem spool_round_trip (hstart : (start senv max quota).1 = .ok s₀)
    (hwrites : s₀.writeAll env writes = .ok s) :
    ∃ reserved, diskReservation max = .ok reserved ∧
      (∀ file, s.file = some file → file.length ≤ reserved) ∧
      ∀ sync r, s.intoBody env sync = .ok r →
        r.file.length ≤ reserved ∧
        (∃ chunks, Delivers r.key 0 ⟨r.file, false⟩ chunks .ended) ∧
        ∀ chunks ending, Delivers r.key 0 ⟨r.file, false⟩ chunks ending → ending ≠ .cancelled →
          ending = .ended ∧ chunks.flatten = writes.flatten := by
  obtain ⟨_, _, reserved, hreserved⟩ := start_ok hstart
  obtain ⟨hmax, h⟩ := buffered_of_start hstart hwrites
  have htotal := (diskReservation_ok hreserved).2
  have hlength := h.length
  have hwritten := h.within.trans h.bounded
  refine ⟨reserved, hreserved, ?_, ?_⟩
  · intro file hfile
    have hcipher : ∀ e ∈ s.log, e.ciphertext.length = e.message.length + tagLen :=
      fun e he => length_of_encrypt (h.sealing.encrypted e he)
    rw [h.file] at hfile
    rw [← Option.some.inj hfile, length_row h.sealing.nonce hcipher,
      length_flatMap_of_forall h.full]
    simp only [plaintextFrameBytes, frameOverheadBytes, nonceBytes, Staging.nonceLen]
      at htotal hlength ⊢
    omega
  · intro sync r hr
    have hr := h.intoBody hmax hr
    have hcipher : ∀ e ∈ r.log, e.ciphertext.length = e.message.length + tagLen :=
      fun e he => length_of_encrypt (hr.sealing.encrypted e he)
    have hdelivers : Delivers r.key 0 ⟨r.file, false⟩ (r.log.map (·.message)) .ended := by
      rw [hr.file]
      refine delivers_frames ?_ ((Nat.zero_add _).symm ▸ (hr.count_lt hmax).le)
      intro i e hi
      have he := mem_of_getElem? hi
      refine ⟨(hr.fits he).2, hr.sealing.nonce e he, hcipher e he, ?_⟩
      rw [Nat.zero_add, ← hr.sealing.associated i e hi]
      exact LawfulAead.decrypt_encrypt (hr.sealing.encrypted e he)
    refine ⟨?_, ⟨_, hdelivers⟩, ?_⟩
    · have hcount := hr.count.2
      rw [hr.file, length_row hr.sealing.nonce hcipher, hr.content]
      simp only [plaintextFrameBytes, frameOverheadBytes, nonceBytes, Staging.nonceLen]
        at htotal hcount ⊢
      omega
    · intro chunks ending hchunks hending
      obtain ⟨rfl, rfl⟩ := hdelivers.unique (by simp) hchunks hending
      exact ⟨rfl, by rw [← flatMap_def, hr.content]⟩

end RoundTrip

/-- What the examples draw. -/
def drawnFrames : FrameEnv := ⟨fun _ => drawnNonce, fun _ => none⟩

/-- A spool of eight bytes, as it starts. -/
def drawnSpool : EncryptedReadSpool := ⟨some [], 40, 8, 0, drawnKey, 0, [], []⟩

/-- The spool, when a seven was written. -/
def drawnWritten : EncryptedReadSpool := { drawnSpool with bytes := 1, pending := [7] }

/-- The one frame of the closed file. -/
def drawnFrame : Sealed := ⟨drawnNonce, [7], be64 0, 7 :: replicate tagLen 0⟩

def drawnReplay : Replay := ⟨frameOf drawnFrame, drawnKey, 1, [drawnFrame]⟩

omit [Aead] in
theorem start_drawnSpool :
    (start ⟨drawnKey, none, none⟩ 8 ⟨64, 0⟩).1 = .ok drawnSpool := rfl

theorem writeAll_drawnSpool : drawnSpool.writeAll drawnFrames [[7]] = .ok drawnWritten := by
  have hfull : ({ drawnSpool with bytes := 1 } : EncryptedReadSpool).writeFull drawnFrames [7] =
      .ok drawnWritten := by
    rw [writeFull, if_neg (by decide)]
    rfl
  change (({ drawnSpool with bytes := 1 } : EncryptedReadSpool).writeFull drawnFrames [7] >>= _) = _
  rw [hfull]
  rfl

omit [Aead] in
/-- A byte is written and comes back. -/
theorem one_byte_comes_back : letI := plainAead
    drawnSpool.writeAll drawnFrames [[7]] = .ok drawnWritten ∧
      drawnWritten.intoBody drawnFrames none = .ok drawnReplay ∧
      ∃ chunks, Delivers drawnKey 0 ⟨frameOf drawnFrame, false⟩ chunks .ended ∧
        chunks.flatten = [7] := by
  let _ := plainAead
  let _ := lawful_plainAead
  obtain ⟨_, _, _, h⟩ := spool_round_trip start_drawnSpool writeAll_drawnSpool
  have hbody : drawnWritten.intoBody drawnFrames none = .ok drawnReplay := rfl
  obtain ⟨_, ⟨chunks, hchunks⟩, hall⟩ := h none drawnReplay hbody
  exact ⟨writeAll_drawnSpool, hbody, chunks, hchunks, (hall chunks .ended hchunks (by simp)).2⟩

/-! ### Integrity -/

section Integrity

variable {senv : StartEnv} {quota : SpoolQuota} {s₀ : EncryptedReadSpool} {writes : List Bytes}

/-- The first full frames of a file are its first bytes. -/
theorem Spooled.take_frames (h : Spooled max r written) (hideal : IdealAead r.key r.log)
    (hj : j < r.log.length) :
    (r.log.take j).flatMap frameOf =
      r.file.take (j * (plaintextFrameBytes + frameOverheadBytes)) := by
  obtain ⟨front, last, hlog, hone, hfull, _⟩ := h.frames
  have hle : j ≤ front.length := by
    rw [hlog, length_append] at hj
    omega
  have hmem : ∀ e ∈ r.log.take j, e ∈ front := by
    intro e he
    rw [hlog, take_append_of_le_length hle] at he
    exact mem_of_mem_take he
  have hlength : ((r.log.take j).flatMap frameOf).length =
      j * (plaintextFrameBytes + frameOverheadBytes) := by
    rw [length_flatMap_of_forall (n := plaintextFrameBytes + frameOverheadBytes),
      length_take_of_le hj.le]
    intro e he
    have he' := mem_of_mem_take he
    rw [length_frameOf (h.sealing.nonce e he') (hideal.length_of_mem e he'), hfull e (hmem e he)]
  rw [h.file]
  conv_rhs => rw [← take_append_drop j r.log, flatMap_append]
  rw [take_left' hlength]

theorem Spooled.take_ne (h : Spooled max r written) (hj : j < r.log.length) :
    (r.log.take j).flatMap (·.message) ≠ written := by
  intro heq
  have hpos := (h.fits (getElem_mem hj)).1
  have hlength := congrArg length h.content
  rw [← take_append_drop j r.log, List.drop_eq_getElem_cons hj, flatMap_append,
    flatMap_cons, heq, length_append, length_append] at hlength
  omega

/-- The full frames that a file has behind others end before it does. -/
theorem Spooled.boundary_iff (h : Spooled max r written)
    (hideal : IdealAead r.key r.log) (j : Nat) :
    j * (plaintextFrameBytes + frameOverheadBytes) < r.file.length ↔ j < r.log.length := by
  have hcount := h.count
  rw [h.file, length_row h.sealing.nonce hideal.length_of_mem, h.content]
  simp only [plaintextFrameBytes, frameOverheadBytes, nonceBytes, Staging.nonceLen] at hcount ⊢
  omega

/-- **Integrity of the read spool.**  Under an ideal AEAD, whatever the file holds when it is
replayed: a replay that is read to its end without an error delivers what was written, if and only
if the file was not cut off behind a whole number of full frames. -/
theorem replayed_spool_intact_iff (hstart : (start senv max quota).1 = .ok s₀)
    (hwrites : s₀.writeAll env writes = .ok s) {sync : Option String} {r : Replay}
    (hbody : s.intoBody env sync = .ok r) (hideal : IdealAead r.key r.log) (file : Bytes) :
    (∀ chunks, Delivers r.key 0 ⟨file, false⟩ chunks .ended → chunks.flatten = writes.flatten) ↔
      ¬ ∃ k, k * (plaintextFrameBytes + frameOverheadBytes) < r.file.length ∧
        file = r.file.take (k * (plaintextFrameBytes + frameOverheadBytes)) := by
  obtain ⟨hmax, h⟩ := buffered_of_start hstart hwrites
  have hr := h.intoBody hmax hbody
  have hcount := hr.count_lt hmax
  have hword : maxWord 64 = 2 ^ 64 - 1 := rfl
  constructor
  · rintro hintact ⟨k, hk, rfl⟩
    rw [hr.boundary_iff hideal] at hk
    refine hr.take_ne hk ?_
    rw [flatMap_def]
    refine hintact _ ?_
    rw [← hr.take_frames hideal hk]
    refine delivers_frames ?_ (by rw [length_take]; omega)
    intro i e hi
    have he : e ∈ r.log := mem_of_mem_take (mem_of_getElem? hi)
    have hi : r.log[i]? = some e := by
      rw [List.getElem?_take] at hi
      exact (Option.ite_none_right_eq_some.mp hi).2
    refine ⟨(hr.fits he).2, hr.sealing.nonce e he, hideal.length_of_mem e he, ?_⟩
    rw [Nat.zero_add, ← hr.sealing.associated i e hi]
    exact (hideal.decrypt_iff ..).mpr he
  · intro hcut chunks hchunks
    obtain ⟨j, hfile, rfl⟩ := hchunks.frames hideal hr.sealing.associated (by omega) (zero_le _)
    rw [drop_zero] at hfile ⊢
    rw [← flatMap_def]
    by_cases hj : j < r.log.length
    · refine absurd ⟨j, (hr.boundary_iff hideal j).mpr hj, ?_⟩ hcut
      rw [← hr.take_frames hideal hj]
      exact hfile
    · rw [take_of_length_le (Nat.le_of_not_lt hj), hr.content]

end Integrity

/-- An AEAD that opens the drawn frame and nothing else. -/
abbrev drawnAead : Aead where
  encrypt _ _ message _ := some (message ++ replicate tagLen 0)
  decrypt _ nonce ciphertext associated :=
    if nonce = drawnFrame.nonce ∧ ciphertext = drawnFrame.ciphertext ∧
        associated = drawnFrame.associated then some drawnFrame.message
    else none

omit [Aead] in
theorem ideal_drawnAead : letI := drawnAead; IdealAead drawnKey [drawnFrame] := by
  let _ := drawnAead
  refine ⟨?_, by decide⟩
  intro nonce message associated ciphertext
  rw [mem_singleton]
  constructor
  · intro h
    obtain ⟨⟨rfl, rfl, rfl⟩, hmessage⟩ := Option.ite_none_right_eq_some.mp h
    cases hmessage
    rfl
  · rintro ⟨⟩
    exact if_pos ⟨rfl, rfl, rfl⟩

omit [Aead] in
/-- A file that nobody has touched is intact. -/
theorem untouched_spool_intact : letI := drawnAead
    drawnWritten.intoBody drawnFrames none = .ok drawnReplay ∧
      ∀ chunks, Delivers drawnKey 0 ⟨frameOf drawnFrame, false⟩ chunks .ended →
        chunks.flatten = [7] := by
  let _ := drawnAead
  have hbody : drawnWritten.intoBody drawnFrames none = .ok drawnReplay := rfl
  refine ⟨hbody, (replayed_spool_intact_iff start_drawnSpool writeAll_drawnSpool hbody
    ideal_drawnAead drawnReplay.file).mpr ?_⟩
  rintro ⟨k, hk, hfile⟩
  have hlength := congrArg length hfile
  rw [length_take] at hlength
  omega

omit [Aead] in
/-- **A spool that was emptied is replayed to its end without an error**, and nothing is delivered.
-/
theorem emptied_spool_delivers_nothing : letI := drawnAead
    (start ⟨drawnKey, none, none⟩ 8 ⟨64, 0⟩).1 = .ok drawnSpool ∧
      drawnSpool.writeAll drawnFrames [[7]] = .ok drawnWritten ∧
      drawnWritten.intoBody drawnFrames none = .ok drawnReplay ∧
      IdealAead drawnReplay.key drawnReplay.log ∧
      Delivers drawnReplay.key 0 ⟨[], false⟩ [] .ended ∧
      ([] : List Bytes).flatten ≠ [[7]].flatten := by
  let _ := drawnAead
  exact ⟨start_drawnSpool, writeAll_drawnSpool, rfl, ideal_drawnAead, .ended rfl, by decide⟩

end S4.Reads
