import S4.Records.Framing

/-!
# Records — Output

The validator of the records that a pipeline puts out (`OutputValidator`): it pushes their payloads
and separators into a decoder of its own, and fails where that decoder fails.

Records that a decoder has emitted pass the validator unchanged, with one exception: a CSV record of
exactly `max_record_bytes` bytes that ends in a lone `\r`.  The decoder saw the byte behind the `\r`
in the same frame; the validator pushes the `\r` as a frame of its own, and the wait for the next
byte holds one byte too many (`validateOutputRecords_iff`).
-/

namespace S4.Records

open Lib List Splitter RecordDecoder

variable {state : CsvState} {fields maxCsvFields : Nat} {byte : UInt8}
  {payload q separator tail c : Bytes} {bytes : Bytes}

/-- `bytes.chunks(n)`; there are no more chunks than bytes. -/
def chunks (n : Nat) (bytes : Bytes) : List Bytes :=
  go bytes.length bytes
where
  go : Nat → Bytes → List Bytes
    | 0,        _ => []
    | fuel + 1, bytes => if bytes = [] then [] else bytes.take n :: go fuel (bytes.drop n)

structure OutputValidator where
  format : Format
  decoder : RecordDecoder
  maxFrameBytes : Nat
  inputSeen : Bool
  finished : Bool

namespace OutputValidator

def new (format : Format) (limits : DecoderLimits) : Except S4Error OutputValidator := do
  let decoder ← RecordDecoder.new format limits
  return {
    format, decoder
    maxFrameBytes := limits.maxSourceFrameBytes
    inputSeen := false
    finished := false }

variable [Parsers]

/-- The loop of `drain_records`, with the bound of `RecordDecoder.drain`. -/
def drainLoop (format : Format) : Nat → RecordDecoder → Except S4Error RecordDecoder
  | 0,        d => .ok d
  | fuel + 1, d => do
    let (record, d) ← d.nextRecord
    match record with
    | none => return d
    | some record =>
      if format = .jsonl then
        validateUtf8 record.payload Codes.decodeEncoding
        (Parsers.json record.payload).mapError (⟨Codes.decodeJsonl, ·⟩)
      drainLoop format fuel d

def drainRecords (v : OutputValidator) : Except S4Error OutputValidator := do
  let decoder ← drainLoop v.format (v.decoder.bufferedBytes + 2) v.decoder
  return { v with decoder }

def pushChunks (v : OutputValidator) : List Bytes → Except S4Error OutputValidator
  | [] => .ok v
  | chunk :: rest => do
    let decoder ← v.decoder.push chunk
    let v ← drainRecords { v with decoder }
    pushChunks v rest

def pushBytes (v : OutputValidator) (bytes : Bytes) : Except S4Error OutputValidator :=
  pushChunks { v with inputSeen := v.inputSeen || !bytes.isEmpty } (chunks v.maxFrameBytes bytes)

def pushRecord (v : OutputValidator) (record : Record) : Except S4Error OutputValidator :=
  if v.finished then .error ⟨Codes.internal, "cannot validate output after finish"⟩
  else do
    let v ← v.pushBytes record.payload
    v.pushBytes record.separator

def finish (v : OutputValidator) : Except S4Error OutputValidator :=
  if v.finished then .ok v
  else if !v.inputSeen then .ok { v with finished := true }
  else do
    let decoder ← v.decoder.finish
    drainRecords { v with finished := true, decoder }

def pushRecords (v : OutputValidator) : List Record → Except S4Error OutputValidator
  | [] => .ok v
  | record :: records => do
    let v ← v.pushRecord record
    v.pushRecords records

end OutputValidator

/-- Validate a complete set of output records as one output stream. -/
def validateOutputRecords [Parsers] (format : Format) (records : List Record)
    (limits : DecoderLimits) : Except S4Error Unit := do
  let v ← OutputValidator.new format limits
  let v ← v.pushRecords records
  let _ ← v.finish
  return ()

/-! ### Records as the splitter finds them -/

section Framed

variable {format : Format} {limits : DecoderLimits} {r : Record} {p rest : Bytes}
  {rs : List Record}

theorem CsvState.scan_lineEnd (hq : state ≠ .quoted) (hb : byte = lf ∨ byte = cr) :
    state.scan maxCsvFields fields byte = .ok .boundary := by
  cases state with
  | quoted => exact absurd rfl hq
  | fieldStart | unquoted | quoteClosed => rcases hb with rfl | rfl <;> rfl

theorem CsvState.ne_quoted_of_boundary
    (h : state.scan maxCsvFields fields byte = .ok .boundary) : state ≠ .quoted := by
  rintro rfl
  simp only [CsvState.scan] at h
  split at h <;> cases h

/-- A part of a record that scans is open. -/
theorem csvScan_of_part
    (h : csvScan maxCsvFields .fieldStart 1 payload = .open state fields) (hq : q <+: payload) :
    ∃ state' fields', csvScan maxCsvFields .fieldStart 1 q = .open state' fields' := by
  obtain ⟨t, rfl⟩ := hq
  rw [csvScan_append] at h
  cases hs : csvScan maxCsvFields .fieldStart 1 q with
  | «open» state' fields' => exact ⟨state', fields', rfl⟩
  | bad => simp [hs] at h
  | ends => simp [hs] at h

theorem csvSeparator_forms (hb : byte = lf ∨ byte = cr)
    (h : csvSeparator (byte :: bytes) = some (separator, rest)) :
    separator = [lf] ∨ separator = [cr, lf] ∨ separator = [cr] := by
  simp only [csvSeparator] at h
  split at h
  · next hlf =>
    cases h
    exact .inl (by rw [hlf])
  · next hlf =>
    cases hb.resolve_left hlf
    cases bytes with
    | nil => cases h
    | cons next =>
      simp only at h
      split at h
      · next hnext =>
        cases h
        exact .inr (.inl (by rw [hnext]))
      · cases h
        exact .inr (.inr rfl)

variable [Parsers]

/-- A record with its separator: the splitter waits while it arrives, and finds it when the
separator is known to have ended. -/
structure Framed (format : Format) (limits : DecoderLimits) (r : Record) : Prop where
  opens : ∀ q, q <+: r.payload → (splitter format limits).next q = .more q
  short : r.payload.length ≤ limits.maxRecordBytes
  separator : r.separator = [lf] ∨ r.separator = [cr, lf] ∨ r.separator = [cr] ∧ format = .csv
  waits : ∀ tail, r.separator = cr :: tail →
    (splitter format limits).next (r.payload ++ [cr]) = .more (r.payload ++ [cr])
  found : ∀ q, (r.separator = [cr] → ∃ byte bytes, q = byte :: bytes ∧ byte ≠ lf) →
    (splitter format limits).next (r.payload ++ r.separator ++ q) = .found r q
  starts : format = .csv → StartsRecord r.payload
  last : r.separator = [cr] → ∀ seen,
    lastRecords format limits (r.payload ++ [cr]) seen = some [r]

theorem framed_line {line : Bytes} (hf : (splitter format limits).next = lineNext limits)
    (hcsv : format ≠ .csv) (hline : lf ∉ line)
    (hlen : (lineRecord line).payload.length ≤ limits.maxRecordBytes)
    (hutf : utf8Ok (lineRecord line).payload = true) : Framed format limits (lineRecord line) := by
  have hwhole : ∀ q, (lineRecord line).payload ++ (lineRecord line).separator ++ q =
      line ++ lf :: q := fun q => (lineRecord_eq line q).1.symm
  have hpre : (lineRecord line).payload <+: line := by
    simp only [lineRecord]
    split
    · exact dropLast_prefix line
    · exact prefix_rfl
  have hlone : (lineRecord line).separator ≠ [cr] := by
    simp only [lineRecord]
    split <;> simp [lf, cr]
  refine ⟨fun q hq => ?_, hlen, ?_, fun tail htail => ?_, fun q _ => ?_, fun h => absurd h hcsv,
    fun h => absurd h hlone⟩
  · have hopen : lf ∉ q := fun h => hline ((hq.trans hpre).mem h)
    rw [hf, lineNext_open hopen, if_pos (.inl (hq.length_le.trans hlen))]
  · simp only [lineRecord]
    split
    · exact .inr (.inl rfl)
    · exact .inl rfl
  · have hcr : line.getLast? = some cr := by
      by_contra hne
      simp only [lineRecord, if_neg hne] at htail
      cases htail
    have hsplit := dropLast_append_getLast? cr hcr
    simp only [lineRecord, if_pos hcr] at hlen ⊢
    rw [hsplit, hf, lineNext_open hline, if_pos]
    rw [length_dropLast] at hlen
    by_cases hle : line.length ≤ limits.maxRecordBytes
    · exact .inl hle
    · exact .inr ⟨by omega, hcr⟩
  · rw [hwhole, hf, lineNext_line hline, if_pos ⟨hlen, hutf⟩]

/-- The splitter waits while a record that scans arrives. -/
theorem csvNext_of_part
    (hopen : csvScan limits.maxCsvFields .fieldStart 1 payload = .open state fields)
    (hlen : payload.length ≤ limits.maxRecordBytes) (q : Bytes) (hq : q <+: payload) :
    (splitter .csv limits).next q = .more q := by
  obtain ⟨state', fields', hs⟩ := csvScan_of_part hopen hq
  have hskip : skipEmpty q = q := by
    refine skipEmpty_of_scan limits.maxCsvFields fun rest => ?_
    rw [hs]
    simp
  change csvNext limits q = _
  simp [csvNext, hskip, csvRecord, hs, if_pos (hq.length_le.trans hlen)]

theorem framed_csv (hp : StartsRecord payload)
    (hopen : csvScan limits.maxCsvFields .fieldStart 1 payload = .open state fields)
    (hq : state ≠ .quoted) (hvalid : csvValid limits payload)
    (hsep : separator = [lf] ∨ separator = [cr, lf] ∨ separator = [cr]) :
    Framed .csv limits ⟨payload, separator⟩ := by
  have hcr : cr ≠ lf := by decide
  -- the scan of the payload ends at whatever line end follows
  have hscan : ∀ byte bytes, byte = lf ∨ byte = cr →
      csvScan limits.maxCsvFields .fieldStart 1 (payload ++ byte :: bytes) =
        .ends payload (byte :: bytes) := by
    intro byte bytes hb
    rw [csvScan_append, hopen]
    simp only [csvScan, CsvState.scan_lineEnd hq hb, CsvScan.after, append_nil]
  have hnext : ∀ q, csvNext limits (payload ++ q) = csvRecord limits (payload ++ q) := fun q => by
    rw [csvNext, (hp.append q).skipEmpty]
  refine ⟨csvNext_of_part hopen hvalid.1, hvalid.1, ?_, fun tail _ => ?_, fun q hlone => ?_,
    fun _ => hp, fun hlone seen => ?_⟩
  · rcases hsep with h | h | h
    · exact .inl h
    · exact .inr (.inl h)
    · exact .inr (.inr ⟨h, rfl⟩)
  · change csvNext limits (payload ++ [cr]) = _
    rw [hnext]
    simp only [csvRecord, hscan cr [] (.inr rfl), csvSeparator, if_neg hcr, if_pos hvalid.1]
  · change csvNext limits (payload ++ separator ++ q) = _
    rw [append_assoc, hnext]
    rcases hsep with rfl | rfl | rfl
    · simp only [csvRecord, singleton_append, hscan lf q (.inl rfl), csvSeparator, if_true,
        if_pos hvalid]
    · simp only [csvRecord, cons_append, nil_append, hscan cr (lf :: q) (.inr rfl),
        csvSeparator, if_neg hcr, if_true, if_pos hvalid]
    · obtain ⟨byte, bytes, rfl, hb⟩ := hlone rfl
      simp only [csvRecord, singleton_append, hscan cr (byte :: bytes) (.inr rfl), csvSeparator,
        if_neg hcr, if_neg hb, if_pos hvalid]
  · obtain rfl : separator = [cr] := hlone
    have hne : ¬ (payload ++ [cr] = [] ∨ payload ++ [cr] = [cr]) := by
      obtain ⟨byte, bytes, rfl, -⟩ := hp
      simp
    simp only [lastRecords, if_neg hne, hscan cr [] (.inr rfl), if_pos hvalid]

/-- The payload of a record behind which the scan ends. -/
theorem framed_of_scan (hp : StartsRecord p)
    (hscan : csvScan limits.maxCsvFields .fieldStart 1 p = .ends payload tail)
    (hvalid : csvValid limits payload)
    (hsep : separator = [lf] ∨ separator = [cr, lf] ∨ separator = [cr]) :
    Framed .csv limits ⟨payload, separator⟩ := by
  obtain ⟨state, fields, byte, bytes, rfl, hopen, rfl, hbound⟩ := csvScan_ends_open hscan
  have hb := CsvState.scan_boundary hbound
  have hstart : StartsRecord payload := by
    match payload, hp with
    | [], ⟨_, _, e, hlf, hcr⟩ =>
      cases e
      exact absurd hb (by simp [hlf, hcr])
    | b :: bs, ⟨_, _, e, hlf, hcr⟩ =>
      cases e
      exact ⟨b, bs, rfl, hlf, hcr⟩
  exact framed_csv hstart hopen (CsvState.ne_quoted_of_boundary hbound) hvalid hsep

/-- **Every record that the splitter finds is framed.** -/
theorem framed_of_found (hf : format ≠ .json)
    (h : (splitter format limits).next p = .found r rest) : Framed format limits r := by
  have hline : (splitter format limits).next = lineNext limits → format ≠ .csv →
      Framed format limits r := by
    intro hnext hcsv
    rw [hnext] at h
    obtain ⟨line, hline, rfl, rfl, hlen, hutf8⟩ := lineNext_found h
    exact framed_line hnext hcsv hline hlen hutf8
  cases format with
  | json => exact absurd rfl hf
  | text | jsonl | tsv => exact hline rfl (by simp)
  | csv =>
    obtain ⟨tail, hscan, hsep, hvalid⟩ := csvRecord_found h
    obtain ⟨-, byte, bytes, rfl, hb⟩ := csvScan_ends hscan
    exact framed_of_scan (startsRecord_of_csvNext h (by simp)) hscan hvalid
      (csvSeparator_forms hb hsep)

/-- The records of a drained stream are framed. -/
theorem framed_of_drain (hf : format ≠ .json)
    (h : (splitter format limits).drain p = some (rs, rest)) :
    ∀ r ∈ rs, Framed format limits r := by
  refine drain_induction (motive := fun _ rs _ => ∀ r ∈ rs, Framed format limits r)
    ?_ ?_ h
  · simp
  · intro p r left rs rest hnext ih r' hr'
    rcases mem_cons.mp hr' with rfl | hr'
    · exact framed_of_found hf hnext
    · exact ih r' hr'

/-- A record and its separator are part of the buffer. -/
theorem length_of_found (h : (splitter format limits).next p = .found r rest) :
    r.payload.length + r.separator.length + rest.length ≤ p.length := by
  have hline : lineNext limits p = .found r rest →
      r.payload.length + r.separator.length + rest.length ≤ p.length := by
    intro h
    obtain ⟨line, -, rfl, rfl, -⟩ := lineNext_found h
    have hlen := (lineRecord_eq line rest).2.2
    simp only [length_append, length_cons]
    omega
  cases format with
  | json =>
    simp only [splitter, jsonSplitter, jsonNext] at h
    split at h <;> cases h
  | text | jsonl | tsv => exact hline h
  | csv =>
    obtain ⟨tail, hscan, hsep, -⟩ := csvRecord_found h
    have hle := skipEmpty_length p
    rw [(csvScan_ends hscan).1, (csvSeparator_eq hsep).1] at hle
    simp only [length_append] at hle ⊢
    omega

/-- Frames of one byte find only records that fit with half of their separator. -/
theorem length_of_feed {frames : List Bytes} (hf : format ≠ .json)
    (hone : ∀ frame ∈ frames, frame.length ≤ 1) (hp : fits format limits p = true)
    (h : (splitter format limits).feed (fits format limits) p frames = some (rs, rest)) :
    ∀ r ∈ rs, r.payload.length + r.separator.length ≤ limits.maxRecordBytes + 1 := by
  have hfits : ∀ q, fits format limits q = true → q.length ≤ limits.maxRecordBytes := by
    intro q hq
    cases format <;> first | exact absurd rfl hf | simpa [fits] using hq
  induction frames generalizing p rs with
  | nil =>
    cases h
    simp
  | cons c frames ih =>
    rw [feed] at h
    obtain ⟨e, hdrain, h⟩ := Option.bind_eq_some_iff.mp h
    split at h
    · next hok =>
      obtain ⟨e', hfeed, heq⟩ := Option.map_eq_some_iff.mp h
      cases heq
      intro r hr
      rcases mem_append.mp hr with hr | hr
      · have hc := hone c mem_cons_self
        have hall : ∀ r ∈ e.1, r.payload.length + r.separator.length ≤ (p ++ c).length := by
          refine drain_induction (motive := fun p rs _ =>
            ∀ r ∈ rs, r.payload.length + r.separator.length ≤ p.length) ?_ ?_ hdrain
          · simp
          · intro p r left rs rest hnext ih r' hr'
            have hlen := length_of_found hnext
            rcases mem_cons.mp hr' with rfl | hr'
            · omega
            · have := ih r' hr'
              omega
        have := hall r hr
        have := hfits p hp
        rw [length_append] at *
        omega
      · exact ih (fun frame hframe => hone frame (mem_cons_of_mem _ hframe)) hok hfeed r hr
    · cases h

end Framed

/-! ### Pushing records -/

section Chunks

variable {n : Nat} {bytes : Bytes}

theorem chunks_go_flatten (hn : 0 < n) {fuel : Nat} (h : bytes.length ≤ fuel) :
    (chunks.go n fuel bytes).flatten = bytes := by
  induction fuel generalizing bytes with
  | zero => exact (eq_nil_of_length_eq_zero (Nat.le_zero.mp h)).symm
  | succ fuel ih =>
    rw [chunks.go]
    split
    · next hnil => simp [hnil]
    · next hne =>
      have hpos := length_pos_of_ne_nil hne
      rw [flatten_cons, ih (by rw [length_drop]; omega), take_append_drop]

theorem chunks_flatten (hn : 0 < n) (bytes : Bytes) : (chunks n bytes).flatten = bytes :=
  chunks_go_flatten hn le_rfl

theorem length_of_mem_chunks {chunk : Bytes} (h : chunk ∈ chunks n bytes) : chunk.length ≤ n := by
  have hgo : ∀ fuel bytes, chunk ∈ chunks.go n fuel bytes → chunk.length ≤ n := by
    intro fuel
    induction fuel with
    | zero => simp [chunks.go]
    | succ fuel ih =>
      intro bytes h
      rw [chunks.go] at h
      split at h
      · cases h
      · rcases mem_cons.mp h with rfl | h
        · exact length_take_le ..
        · exact ih _ h
  exact hgo _ _ h

/-- The first chunk starts as the bytes do. -/
theorem chunks_cons (hn : 0 < n) {byte : UInt8} :
    ∃ tail rest, chunks n (byte :: bytes) = (byte :: tail) :: rest := by
  obtain ⟨k, rfl⟩ := Nat.exists_eq_add_of_lt hn
  exact ⟨_, _, rfl⟩

theorem chunks_single (hn : 0 < n) (byte : UInt8) : chunks n [byte] = [[byte]] := by
  match n, hn with
  | k + 1, _ => simp [chunks, chunks.go]

theorem chunks_pair (hn : 0 < n) (a b : UInt8) :
    chunks n [a, b] = if n = 1 then [[a], [b]] else [[a, b]] := by
  match n, hn with
  | 1, _ => rfl
  | k + 2, _ => simp [chunks, chunks.go]

end Chunks

/-- The frames in which the validator pushes a record. -/
def Record.frames (n : Nat) (r : Record) : List Bytes := chunks n r.payload ++ chunks n r.separator

theorem frames_flatten {n : Nat} (hn : 0 < n) (rs : List Record) :
    (rs.flatMap (Record.frames n)).flatten = rs.flatMap fun r => r.payload ++ r.separator := by
  induction rs with
  | nil => rfl
  | cons r rs ih =>
    simp [ih, Record.frames, chunks_flatten hn]

theorem length_of_mem_frames (rs : List Record) (n : Nat) :
    ∀ frame ∈ rs.flatMap (Record.frames n), frame.length ≤ n := by
  intro frame hframe
  obtain ⟨r, -, hframe⟩ := mem_flatMap.mp hframe
  rcases mem_append.mp hframe with hframe | hframe <;> exact length_of_mem_chunks hframe

section Feed

variable [Parsers] {format : Format} {limits : DecoderLimits} {r : Record} {p : Bytes}
  {es rs : List Record} {n : Nat}

/-- What the splitter of the validator holds between records: nothing, or a record that ends in a
lone `\r` and is not yet found. -/
inductive Held (format : Format) (limits : DecoderLimits) : Bytes → List Record → Prop where
  | empty : Held format limits [] []
  | lone {r : Record} (h : Framed format limits r) (hs : r.separator = [cr])
      (hl : r.payload.length < limits.maxRecordBytes) : Held format limits (r.payload ++ [cr]) [r]

omit [Parsers] in
theorem fits_of_length (hf : format ≠ .json) :
    fits format limits q = true ↔ q.length ≤ limits.maxRecordBytes := by
  cases format <;> first | exact absurd rfl hf | simp [fits]

/-- The next bytes find the record that is held. -/
theorem Held.feed (h : Held format limits p es) (hc : StartsRecord c) (frames : List Bytes) :
    (splitter format limits).feed (fits format limits) p (c :: frames) =
      ((splitter format limits).feed (fits format limits) [] (c :: frames)).map
        fun e => (es ++ e.1, e.2) := by
  cases h with
  | empty => simp
  | @lone r h hs hl =>
    obtain ⟨byte, bytes, rfl, hlf, -⟩ := hc
    have hfound := h.found (byte :: bytes) fun _ => ⟨byte, bytes, rfl, hlf⟩
    rw [hs] at hfound
    simp only [feed, drain_found hfound, nil_append]
    cases (splitter format limits).drain (byte :: bytes) with
    | none => rfl
    | some e =>
      simp only [Option.map_some, Option.bind_some]
      split
      · cases (splitter format limits).feed (fits format limits) e.2 frames <;> simp
      · rfl

/-- The payload of a record is held back, behind what was held before. -/
theorem Held.feed_payload (hn : 0 < n) (hf : format ≠ .json) (h : Held format limits p es)
    (hopen : ∀ q, q <+: payload → (splitter format limits).next q = .more q)
    (hlen : payload.length ≤ limits.maxRecordBytes) (hstart : p ≠ [] → StartsRecord payload) :
    (splitter format limits).feed (fits format limits) p (chunks n payload) =
    some (es, payload) := by
  have hfeed : (splitter format limits).feed (fits format limits) [] (chunks n payload) =
      some ([], payload) := by
    rw [feed_open, chunks_flatten hn, nil_append]
    intro q hq
    rw [chunks_flatten hn] at hq
    exact ⟨hopen q hq, (fits_of_length hf).mpr (hq.length_le.trans hlen)⟩
  by_cases hp : p = []
  · cases h with
    | empty => exact hfeed
    | lone => simp at hp
  · obtain ⟨byte, bytes, rfl, hb⟩ := hstart hp
    obtain ⟨tail, rest, hchunks⟩ := chunks_cons hn
    rw [hchunks] at hfeed ⊢
    rw [h.feed ⟨byte, tail, rfl, hb⟩, hfeed]
    simp

/-- The record is ended by a lone `\r` and has exactly the limit. -/
def Record.LoneFull (limits : DecoderLimits) (r : Record) : Prop :=
  r.separator = [cr] ∧ r.payload.length = limits.maxRecordBytes

/-- A frame with which a record and its separator are complete finds it. -/
theorem Framed.feed_end (h : Framed format limits r) (hlone : r.separator ≠ [cr])
    (hq : q ++ c = r.payload ++ r.separator) :
    (splitter format limits).feed (fits format limits) q [c] = some ([r], []) := by
  have hfound := h.found [] fun hs => absurd hs hlone
  rw [append_nil] at hfound
  simp [feed, hq, drain_found hfound, drain_more next_nil, if_pos fits_nil]

/-- The `\r` of a separator is held back if it fits. -/
theorem Framed.feed_cr (hf : format ≠ .json) (h : Framed format limits r)
    (hs : r.separator = cr :: tail) (frames : List Bytes) :
    (splitter format limits).feed (fits format limits) r.payload ([cr] :: frames) =
      if r.payload.length < limits.maxRecordBytes then
        (splitter format limits).feed (fits format limits) (r.payload ++ [cr]) frames
      else none := by
  simp only [feed, drain_more (h.waits tail hs), Option.bind_some,
    fits_of_length hf, length_append, length_singleton, Nat.succ_le_iff]
  split
  · cases (splitter format limits).feed (fits format limits) (r.payload ++ [cr]) frames <;> simp
  · rfl

/-- **The separator finds its record, or holds it back.** -/
theorem Framed.feed_separator (hn : 0 < n) (hf : format ≠ .json) (h : Framed format limits r)
    (hone : n = 1 → r.separator = [cr, lf] → r.payload.length < limits.maxRecordBytes)
    (hfull : ¬ r.LoneFull limits) :
    ∃ out p' es', Held format limits p' es' ∧ out ++ es' = [r] ∧
      (splitter format limits).feed (fits format limits) r.payload (chunks n r.separator) =
        some (out, p') := by
  rcases h.separator with hs | hs | ⟨hs, -⟩
  · refine ⟨[r], [], [], .empty, rfl, ?_⟩
    rw [hs, chunks_single hn]
    exact h.feed_end (by rw [hs]; decide) (by rw [hs])
  · refine ⟨[r], [], [], .empty, rfl, ?_⟩
    rw [hs, chunks_pair hn]
    split
    · next h1 =>
      rw [h.feed_cr hf hs, if_pos (hone h1 hs)]
      exact h.feed_end (by rw [hs]; decide) (by rw [hs]; simp)
    · exact h.feed_end (by rw [hs]; decide) (by rw [hs])
  · have hlt : r.payload.length < limits.maxRecordBytes :=
      lt_of_le_of_ne h.short fun e => hfull ⟨hs, e⟩
    refine ⟨[], r.payload ++ [cr], [r], .lone h hs hlt, rfl, ?_⟩
    rw [hs, chunks_single hn, h.feed_cr hf hs, if_pos hlt]
    rfl

theorem Held.csv (h : Held format limits p es) (hp : p ≠ []) : format = .csv := by
  cases h with
  | empty => exact absurd rfl hp
  | lone h hs =>
    rcases h.separator with e | e | e
    · rw [hs] at e
      exact absurd e (by decide)
    · rw [hs] at e
      exact absurd e (by decide)
    · exact e.2

/-- A framed record passes, unless it is full and ends in a lone `\r`. -/
theorem Held.feed_record (hn : 0 < n) (hf : format ≠ .json) (h : Held format limits p es)
    (hr : Framed format limits r)
    (hone : n = 1 → r.separator = [cr, lf] → r.payload.length < limits.maxRecordBytes)
    (hfull : ¬ r.LoneFull limits) :
    ∃ out p' es', Held format limits p' es' ∧ out ++ es' = es ++ [r] ∧
      (splitter format limits).feed (fits format limits) p (r.frames n) = some (out, p') := by
  have hpayload := h.feed_payload hn hf hr.opens hr.short fun hp => hr.starts (h.csv hp)
  obtain ⟨out, p', es', h', hout, hfeed⟩ := hr.feed_separator hn hf hone hfull
  refine ⟨es ++ out, p', es', h', by rw [append_assoc, hout], ?_⟩
  rw [Record.frames, feed_append, hpayload]
  simp [hfeed]

/-- A full record that ends in a lone `\r` is refused. -/
theorem Held.feed_full (hn : 0 < n) (hf : format ≠ .json) (h : Held format limits p es)
    (hr : Framed format limits r) (hfull : r.LoneFull limits) :
    (splitter format limits).feed (fits format limits) p (r.frames n) = none := by
  have hpayload := h.feed_payload hn hf hr.opens hr.short fun hp => hr.starts (h.csv hp)
  rw [Record.frames, feed_append, hpayload, hfull.1, chunks_single hn]
  simp [hr.feed_cr hf hfull.1, hfull.2]

/-- **Framed records pass exactly if none is full and ends in a lone `\r`.** -/
theorem Held.feed_records (hn : 0 < n) (hf : format ≠ .json) (h : Held format limits p es)
    (hrs : ∀ r ∈ rs, Framed format limits r)
    (hone : n = 1 → ∀ r ∈ rs, r.separator = [cr, lf] → r.payload.length < limits.maxRecordBytes) :
    ((∀ r ∈ rs, ¬ r.LoneFull limits) ∧
      ∃ out p' es', Held format limits p' es' ∧ out ++ es' = es ++ rs ∧
        (splitter format limits).feed (fits format limits) p (rs.flatMap (Record.frames n)) =
          some (out, p')) ∨ ((∃ r ∈ rs, r.LoneFull limits) ∧
      (splitter format limits).feed (fits format limits) p (rs.flatMap (Record.frames n)) =
        none) := by
  induction rs generalizing p es with
  | nil => exact .inl ⟨by simp, [], p, es, h, by simp, rfl⟩
  | cons r rs ih =>
    have hr := hrs r mem_cons_self
    rw [flatMap_cons, feed_append]
    by_cases hfull : r.LoneFull limits
    · rw [h.feed_full hn hf hr hfull]
      exact .inr ⟨⟨r, mem_cons_self, hfull⟩, rfl⟩
    obtain ⟨out₁, p₁, es₁, h₁, hout₁, hfeed₁⟩ := h.feed_record hn hf hr
      (fun h1 => hone h1 r mem_cons_self) hfull
    rw [hfeed₁]
    rcases ih h₁ (fun r hr => hrs r (mem_cons_of_mem _ hr))
        (fun h1 r hr => hone h1 r (mem_cons_of_mem _ hr)) with
      ⟨hnone, out, p', es', h', hout, hfeed⟩ | ⟨⟨r', hr', hfull'⟩, hfeed⟩
    · refine .inl ⟨forall_mem_cons.mpr ⟨hfull, hnone⟩, out₁ ++ out, p', es', h', ?_, ?_⟩
      · rw [append_assoc, hout, ← append_assoc, hout₁, append_assoc]
        rfl
      · simp [hfeed]
    · exact .inr ⟨⟨r', mem_cons_of_mem _ hr', hfull'⟩, by simp [hfeed]⟩

/-- What is held at the end of the stream is its last record. -/
theorem Held.last (hf : format ≠ .json) (h : Held format limits p es) :
    lastRecords format limits p true = some es := by
  cases h with
  | empty => cases format <;> first | exact absurd rfl hf | simp [lastRecords]
  | lone h hs => exact h.last hs true

end Feed

/-! ### The validator and its decoder -/

section Validator

variable [Parsers] {format : Format} {limits : DecoderLimits} {v v' : OutputValidator}
  {records : List Record} {n : Nat}

theorem pushFrames_append (d : RecordDecoder) (frames later : List Bytes) :
    d.pushFrames (frames ++ later) = d.pushFrames frames >>= fun e =>
      e.2.pushFrames later >>= fun e' => pure (e.1 ++ e'.1, e'.2) := by
  induction frames generalizing d with
  | nil =>
    simp only [nil_append, pushFrames]
    cases hl : d.pushFrames later with
    | error => simp [hl]
    | ok => simp [hl]
  | cons frame frames ih =>
    simp [pushFrames, ih]

/-- What the validator asks of a record that its decoder emits: one of JSONL is a JSON text. -/
def Passes (format : Format) (r : Record) : Prop :=
  format = .jsonl → utf8Ok r.payload = true ∧ (Parsers.json r.payload).isOk = true

theorem check_eq_ok_iff {r : Record} {rest : Except S4Error RecordDecoder} {d : RecordDecoder} :
    (do
      if format = Format.jsonl then
        validateUtf8 r.payload Codes.decodeEncoding
        (Parsers.json r.payload).mapError (S4Error.mk Codes.decodeJsonl)
      rest) = .ok d ↔ Passes format r ∧ rest = .ok d := by
  by_cases hf : format = .jsonl
  · cases hutf8 : Parsers.utf8 r.payload <;> cases hjson : Parsers.json r.payload <;>
      simp [hf, Passes, validateUtf8, utf8Ok, hutf8, hjson, Except.mapError, Except.isOk,
        Except.toBool]
  · simp [hf, Passes]

/-- The validator drains its decoder, and the records pass. -/
theorem drainLoop_eq_ok_iff {fuel : Nat} {d d' : RecordDecoder} :
    OutputValidator.drainLoop format fuel d = .ok d' ↔
      ∃ rs, d.drainRecords fuel = .ok (rs, d') ∧ ∀ r ∈ rs, Passes format r := by
  induction fuel generalizing d with
  | zero => simp [OutputValidator.drainLoop, drainRecords]
  | succ fuel ih =>
    simp only [OutputValidator.drainLoop, drainRecords]
    cases d.nextRecord with
    | error => simp
    | ok next =>
      obtain ⟨_ | record, d₁⟩ := next
      · simp
      · refine check_eq_ok_iff.trans ?_
        simp only [ih, ok_bind, bind_eq_ok, pure_eq_ok]
        constructor
        · rintro ⟨hrecord, rs, hdrain, hpass⟩
          exact ⟨record :: rs, ⟨_, hdrain, rfl⟩, forall_mem_cons.mpr ⟨hrecord, hpass⟩⟩
        · rintro ⟨-, ⟨⟨rs, d₂⟩, hdrain, ⟨⟩⟩, hpass⟩
          exact ⟨(forall_mem_cons.mp hpass).1, rs, hdrain, (forall_mem_cons.mp hpass).2⟩

theorem drainRecords_eq_ok_iff : v.drainRecords = .ok v' ↔ ∃ rs d, v.decoder.drain = .ok (rs, d) ∧
    (∀ r ∈ rs, Passes v.format r) ∧ v' = { v with decoder := d } := by
  simp only [OutputValidator.drainRecords, bind_eq_ok, drainLoop_eq_ok_iff, RecordDecoder.drain]
  constructor
  · rintro ⟨d, ⟨rs, hdrain, hpass⟩, ⟨⟩⟩
    exact ⟨rs, d, hdrain, hpass, rfl⟩
  · rintro ⟨rs, d, hdrain, hpass, rfl⟩
    exact ⟨d, ⟨rs, hdrain, hpass⟩, rfl⟩

omit [Parsers] in
theorem isEmpty_append (p q : Bytes) : (p ++ q).isEmpty = (p.isEmpty && q.isEmpty) := by
  cases p <;> rfl

/-- The validator pushes the frames, and what its decoder emits passes. -/
def OutputValidator.Pushes (v : OutputValidator) (frames : List Bytes) (v' : OutputValidator) :
    Prop :=
  ∃ rs d, v.decoder.pushFrames frames = .ok (rs, d) ∧ (∀ r ∈ rs, Passes v.format r) ∧
    v' = { v with decoder := d, inputSeen := v.inputSeen || !frames.flatten.isEmpty }

theorem pushes_append {frames later : List Bytes} :
    v.Pushes (frames ++ later) v' ↔ ∃ v₁, v.Pushes frames v₁ ∧ v₁.Pushes later v' := by
  simp only [OutputValidator.Pushes, pushFrames_append, bind_eq_ok, flatten_append]
  constructor
  · rintro ⟨-, -, ⟨⟨rs, d⟩, hfirst, ⟨rs', d'⟩, hlater, ⟨⟩⟩, hpass, rfl⟩
    rw [forall_mem_append] at hpass
    exact ⟨_, ⟨rs, d, hfirst, hpass.1, rfl⟩, rs', d', hlater,
      hpass.2, by simp [isEmpty_append, Bool.or_assoc]⟩
  · rintro ⟨-, ⟨rs, d, hfirst, hpass, rfl⟩, rs', d', hlater, hpass', rfl⟩
    exact ⟨_, _, ⟨_, hfirst, _, hlater, rfl⟩, forall_mem_append.mpr ⟨hpass, hpass'⟩,
      by simp [isEmpty_append, Bool.or_assoc]⟩

theorem pushChunks_eq_ok_iff {frames : List Bytes} : v.pushChunks frames = .ok v' ↔
    ∃ rs d, v.decoder.pushFrames frames = .ok (rs, d) ∧ (∀ r ∈ rs, Passes v.format r) ∧
      v' = { v with decoder := d } := by
  induction frames generalizing v with
  | nil => simp [OutputValidator.pushChunks, pushFrames, eq_comm]
  | cons frame frames ih =>
    simp only [OutputValidator.pushChunks, pushFrames, bind_eq_ok, drainRecords_eq_ok_iff, ih]
    constructor
    · rintro ⟨d, hpush, -, ⟨rs, d₁, hdrain, hpass, rfl⟩, rs', d', hrest, hpass', rfl⟩
      exact ⟨_, _, ⟨d, hpush, _, hdrain, _, hrest, rfl⟩, forall_mem_append.mpr ⟨hpass, hpass'⟩, rfl⟩
    · rintro ⟨-, -, ⟨d, hpush, ⟨rs, d₁⟩, hdrain, ⟨rs', d'⟩, hrest, ⟨⟩⟩, hpass, rfl⟩
      rw [forall_mem_append] at hpass
      exact ⟨d, hpush, _, ⟨rs, d₁, hdrain, hpass.1, rfl⟩, rs', d', hrest, hpass.2, rfl⟩

theorem OutputValidator.Pushes.frame {frames : List Bytes} (h : v.Pushes frames v')
    (hv : v.maxFrameBytes = n ∧ v.finished = false) : v'.maxFrameBytes = n ∧
    v'.finished = false := by
  obtain ⟨rs, d, -, -, rfl⟩ := h
  exact hv

theorem pushBytes_eq_ok_iff (hn : 0 < n) (hv : v.maxFrameBytes = n) :
    v.pushBytes bytes = .ok v' ↔ v.Pushes (chunks n bytes) v' := by
  rw [OutputValidator.pushBytes, pushChunks_eq_ok_iff, OutputValidator.Pushes, hv,
    chunks_flatten hn]

/-- Records are pushed as their frames are. -/
theorem pushRecords_eq_ok_iff (hn : 0 < n) (hv : v.maxFrameBytes = n ∧ v.finished = false) :
    v.pushRecords records = .ok v' ↔ v.Pushes (records.flatMap (Record.frames n)) v' := by
  induction records generalizing v with
  | nil => simp [OutputValidator.pushRecords, OutputValidator.Pushes, pushFrames, eq_comm]
  | cons r rs ih =>
    simp only [OutputValidator.pushRecords, OutputValidator.pushRecord, hv.2, Bool.false_eq_true,
      if_false, bind_eq_ok, flatMap_cons, Record.frames, append_assoc, pushes_append]
    constructor
    · rintro ⟨v₂, ⟨v₁, hpayload, hseparator⟩, hrest⟩
      have hpayload := (pushBytes_eq_ok_iff hn hv.1).mp hpayload
      have hseparator := (pushBytes_eq_ok_iff hn (hpayload.frame hv).1).mp hseparator
      exact ⟨v₁, hpayload, v₂, hseparator, (ih (hseparator.frame (hpayload.frame hv))).mp hrest⟩
    · rintro ⟨v₁, hpayload, v₂, hseparator, hrest⟩
      exact ⟨v₂, ⟨v₁, (pushBytes_eq_ok_iff hn hv.1).mpr hpayload,
        (pushBytes_eq_ok_iff hn (hpayload.frame hv).1).mpr hseparator⟩,
        (ih (hseparator.frame (hpayload.frame hv))).mpr hrest⟩

/-- Finishing asks the decoder for the rest only if the validator has seen bytes. -/
theorem finish_isOk_iff (hv : v.finished = false) : (∃ v', v.finish = .ok v') ↔
    v.inputSeen = false ∨ ∃ d rs d', v.decoder.finish = .ok d ∧ d.drain = .ok (rs, d') ∧
      ∀ r ∈ rs, Passes v.format r := by
  cases hseen : v.inputSeen with
  | false => simp [OutputValidator.finish, hv, hseen]
  | true =>
    simp only [OutputValidator.finish, hv, hseen, Bool.false_eq_true, if_false, Bool.not_true,
      bind_eq_ok, drainRecords_eq_ok_iff, Bool.true_eq_false, false_or]
    constructor
    · rintro ⟨_, d, hfinish, rs, d', hdrain, hpass, -⟩
      exact ⟨d, rs, d', hfinish, hdrain, hpass⟩
    · rintro ⟨d, rs, d', hfinish, hdrain, hpass⟩
      exact ⟨_, d, hfinish, rs, d', hdrain, hpass, rfl⟩

/-- **The validator is a decoder**, which it asks only if some record has bytes. -/
theorem validateOutputRecords_eq_ok_iff (hpos : limits.Positive) :
    validateOutputRecords format records limits = .ok () ↔
      (records.flatMap fun r => r.payload ++ r.separator) = [] ∨
      ∃ rs, decodeFrames format limits
        (records.flatMap (Record.frames limits.maxSourceFrameBytes)) =
        .ok rs ∧ ∀ r ∈ rs, Passes format r := by
  obtain ⟨d, hnew, -⟩ := new_eq format hpos
  have hbytes := frames_flatten hpos.1 records
  let v : OutputValidator := ⟨format, d, limits.maxSourceFrameBytes, false, false⟩
  have hpush : ∀ {v'}, v.pushRecords records = .ok v' ↔ v.Pushes _ v' :=
    pushRecords_eq_ok_iff hpos.1 ⟨rfl, rfl⟩
  simp only [validateOutputRecords, OutputValidator.new, decodeFrames, hnew, ok_bind, pure_eq_ok,
    bind_eq_ok]
  constructor
  · rintro ⟨_, hv, v'', hfinish, -⟩
    obtain ⟨rs, d', hframes, hpass, rfl⟩ := hpush.mp hv
    rcases (finish_isOk_iff rfl).mp ⟨v'', hfinish⟩ with hseen | ⟨d₁, last, d₂, hd₁, hd₂, hlast⟩
    · exact .inl (by simpa [v, hbytes] using hseen)
    · exact .inr ⟨_, ⟨_, hframes, d₁, hd₁, _, hd₂, rfl⟩, forall_mem_append.mpr ⟨hpass, hlast⟩⟩
  · rintro (hnil | ⟨-, ⟨⟨rs, d'⟩, hframes, d₁, hd₁, ⟨last, d₂⟩, hd₂, ⟨⟩⟩, hpass⟩)
    · have hframes : records.flatMap (Record.frames limits.maxSourceFrameBytes) = [] := by
        simp only [flatMap_eq_nil_iff, append_eq_nil_iff] at hnil ⊢
        intro r hr
        rw [Record.frames, (hnil r hr).1, (hnil r hr).2]
        rfl
      refine ⟨v, hpush.mpr ⟨[], d, by rw [hframes]; rfl, by simp, by simp [v, hframes]⟩, ?_⟩
      exact ⟨_, rfl, trivial⟩
    · obtain ⟨hpass, hlast⟩ := forall_mem_append.mp hpass
      obtain ⟨v'', hfinish⟩ := (finish_isOk_iff
        (v := { v with decoder := d', inputSeen := v.inputSeen || !_ }) rfl).mpr
        (.inr ⟨d₁, last, d₂, hd₁, hd₂, hlast⟩)
      exact ⟨_, hpush.mpr ⟨rs, d', hframes, hpass, rfl⟩, v'', hfinish, trivial⟩


end Validator

/-! ### What the decoder emits passes -/

section Identity

variable [Parsers] {format : Format} {limits : DecoderLimits} {frames : List Bytes}
  {records : List Record}

/-- The last record of a stream: none, one that ends in a lone `\r` and is not full, or a rest
without a separator. -/
theorem lastRecords_cases {rest : Bytes} {seen : Bool} {last : List Record} (hf : format ≠ .json)
    (hmore : (splitter format limits).next rest = .more rest)
    (hfits : fits format limits rest = true) (h : lastRecords format limits rest seen = some last) :
    last = [] ∨ (∃ r, last = [r] ∧ Framed format limits r ∧ r.separator = [cr]) ∨
    (last = [⟨rest, []⟩] ∧ (∀ q, q <+: rest → (splitter format limits).next q = .more q) ∧
      (format = .csv → StartsRecord rest) ∧
      ∃ last', lastRecords format limits rest true = some last' ∧
        (format = .csv → last' ≠ [])) := by
  rw [fits_of_length hf] at hfits
  have hline : (splitter format limits).next = lineNext limits → format ≠ .csv →
      (∀ seen, lastRecords format limits rest seen =
        if rest = [] ∧ seen = true then some []
        else if utf8Ok rest then some [⟨rest, []⟩] else none) →
      last = [] ∨ (last = [⟨rest, []⟩] ∧
        (∀ q, q <+: rest → (splitter format limits).next q = .more q) ∧
        (format = .csv → StartsRecord rest) ∧
        ∃ last', lastRecords format limits rest true = some last' ∧
          (format = .csv → last' ≠ [])) := by
    intro hnext hcsv hlast
    rw [hnext] at hmore
    have hopen := (lineNext_more hmore).2.1
    rw [hlast] at h ⊢
    split at h
    · exact .inl (by simpa using h.symm)
    · split at h
      · next hutf =>
        refine .inr ⟨by simpa using h.symm, fun q hq => ?_, fun h => absurd h hcsv, ?_⟩
        · rw [hnext, lineNext_open fun hlf => hopen (hq.mem hlf),
            if_pos (.inl (hq.length_le.trans hfits))]
        · rw [if_pos hutf]
          split
          · exact ⟨[], rfl, fun h => absurd h hcsv⟩
          · exact ⟨_, rfl, fun h => absurd h hcsv⟩
      · cases h
  cases format with
  | json => exact absurd rfl hf
  | text | jsonl | tsv => exact (hline rfl (by simp) fun _ => rfl).imp_right .inr
  | csv =>
    have hskip : skipEmpty rest = rest := (csvRecord_more hmore).symm
    have hcases := skipEmpty_cases rest
    rw [hskip, ← or_assoc] at hcases
    have hlast := h
    simp only [lastRecords] at h
    split at h
    · exact .inl (by simpa using h.symm)
    · next hne =>
      have hstart : StartsRecord rest := hcases.resolve_left hne
      refine .inr ?_
      split at h
      · cases h
      · next state fields hscan =>
        split at h
        · obtain rfl : last = [⟨rest, []⟩] := by simpa using h.symm
          exact .inr ⟨rfl, csvNext_of_part hscan hfits, fun _ => hstart, _, hlast, by simp⟩
        · cases h
      · next payload tail hscan =>
        split at h
        · next hvalid =>
          refine .inl ⟨⟨payload, [cr]⟩, by simpa using h.symm, ?_, rfl⟩
          exact framed_of_scan hstart hscan hvalid (.inr (.inr rfl))
        · cases h

/-- Records that end without a separator: a rest that the splitter waits on, and that may end the
stream. -/
structure OpenRest (format : Format) (limits : DecoderLimits) (rest : Bytes) : Prop where
  opens : ∀ q, q <+: rest → (splitter format limits).next q = .more q
  short : rest.length ≤ limits.maxRecordBytes
  starts : format = .csv → StartsRecord rest
  last : ∃ last, lastRecords format limits rest true = some last ∧ (format = .csv → last ≠ [])

/-- **The records of a decoder are framed, but for a rest at the end.** -/
theorem framed_of_decodeFrames (hf : format ≠ .json)
    (h : decodeFrames format limits frames = .ok records) :
    ∃ rs, (∀ r ∈ rs, Framed format limits r) ∧
      (limits.maxSourceFrameBytes = 1 → ∀ r ∈ rs, r.separator = [cr, lf] →
        r.payload.length < limits.maxRecordBytes) ∧
      ((records = rs ∧ (format = .csv → rs ≠ [])) ∨
        ∃ rest, records = rs ++ [⟨rest, []⟩] ∧ OpenRest format limits rest) := by
  obtain ⟨hpos, hlen⟩ := limits_of_decodeFrames h
  obtain ⟨rs, rest, last, hfeed, hlast, hguard, rfl⟩ := (decodeFrames_eq_ok_iff_feed hpos hlen).mp h
  have hne : format = .csv → rs ++ last ≠ [] := fun hcsv => hguard.resolve_left (not_not.mpr hcsv)
  obtain ⟨hmore, hfits⟩ := feed_rest next_nil fits_nil hfeed
  have hframed := framed_of_drain hf ((feed_eq_some_iff next_nil).mp hfeed).1
  have hone : limits.maxSourceFrameBytes = 1 → ∀ r ∈ rs, r.separator = [cr, lf] →
      r.payload.length < limits.maxRecordBytes := by
    intro h1 r hr hs
    have := length_of_feed hf (fun frame hframe => h1 ▸ hlen frame hframe) fits_nil hfeed r hr
    rw [hs] at this
    simpa using this
  rcases lastRecords_cases hf hmore hfits hlast with
    rfl | ⟨r, rfl, hr, hs⟩ | ⟨rfl, hopens, hstart, hend⟩
  · exact ⟨rs, hframed, hone, .inl ⟨append_nil rs, by simpa using hne⟩⟩
  · refine ⟨rs ++ [r], ?_, ?_, .inl ⟨rfl, hne⟩⟩
    · simpa [or_imp, forall_and] using ⟨hframed, hr⟩
    · intro h1 r' hr' hs'
      rcases mem_append.mp hr' with hr' | hr'
      · exact hone h1 r' hr' hs'
      · rw [mem_singleton.mp hr', hs] at hs'
        cases hs'
  · exact ⟨rs, hframed, hone, .inr ⟨rest, rfl, hopens, (fits_of_length hf).mp hfits, hstart, hend⟩⟩

/-- The frames in which the validator pushes the records of a decoder. -/
theorem feed_of_decodeFrames (hf : format ≠ .json)
    (h : decodeFrames format limits frames = .ok records) :
    ((∀ r ∈ records, ¬ r.LoneFull limits) ∧ ∃ out rest last,
      (splitter format limits).feed (fits format limits) []
        (records.flatMap (Record.frames limits.maxSourceFrameBytes)) = some (out, rest) ∧
      lastRecords format limits rest true = some last ∧ (format = .csv → out ++ last ≠ [])) ∨
    ((∃ r ∈ records, r.LoneFull limits) ∧
      (splitter format limits).feed (fits format limits) []
        (records.flatMap (Record.frames limits.maxSourceFrameBytes)) = none) := by
  have hn : 0 < limits.maxSourceFrameBytes := (limits_of_decodeFrames h).1.1
  obtain ⟨rs, hframed, hone, hrecords⟩ := framed_of_decodeFrames hf h
  have hfeed := Held.empty.feed_records hn hf hframed hone
  rcases hrecords with ⟨rfl, hne⟩ | ⟨rest, rfl, hrest⟩
  · refine hfeed.imp_left fun ⟨hfull, out, p', es', hheld, hout, hfeed⟩ =>
      ⟨hfull, out, p', es', hfeed, hheld.last hf, fun hcsv => ?_⟩
    rw [hout]
    exact hne hcsv
  · -- the rest is pushed behind the framed records, and has no separator
    have hframes : (rs ++ [(⟨rest, []⟩ : Record)]).flatMap
      (Record.frames limits.maxSourceFrameBytes) =
        rs.flatMap (Record.frames limits.maxSourceFrameBytes) ++
          chunks limits.maxSourceFrameBytes rest := by
      simp [Record.frames, chunks, chunks.go]
    rw [hframes, feed_append]
    rcases hfeed with ⟨hfull, out, p', es', hheld, -, hfeed⟩ | ⟨⟨r, hr, hfull⟩, hfeed⟩
    · obtain ⟨last, hlast, hne⟩ := hrest.last
      refine .inl ⟨?_, out ++ es', rest, last, ?_, hlast, fun hcsv => ?_⟩
      · intro r hr
        rcases mem_append.mp hr with hr | hr
        · exact hfull r hr
        · rw [mem_singleton.mp hr]
          exact fun hlone => by cases hlone.1
      · rw [hfeed]
        simp [hheld.feed_payload hn hf hrest.opens hrest.short fun hp =>
          hrest.starts (hheld.csv hp)]
      · exact append_ne_nil_of_right_ne_nil _ (hne hcsv)
    · refine .inr ⟨⟨r, mem_append_left _ hr, hfull⟩, ?_⟩
      rw [hfeed]
      rfl

/-- **Identity.**  The records of a decoder pass the validator exactly if none of them is full and
ends in a lone `\r`. -/
theorem validateOutputRecords_iff (hf : format = .text ∨ format = .tsv ∨ format = .csv)
    (h : decodeFrames format limits frames = .ok records) :
    validateOutputRecords format records limits = .ok () ↔ ∀ r ∈ records, ¬ r.LoneFull limits := by
  have hjson : format ≠ .json := by rcases hf with rfl | rfl | rfl <;> simp
  have hjsonl : format ≠ .jsonl := by rcases hf with rfl | rfl | rfl <;> simp
  obtain ⟨hpos, -⟩ := limits_of_decodeFrames h
  have hn : 0 < limits.maxSourceFrameBytes := hpos.1
  have hlen := length_of_mem_frames records limits.maxSourceFrameBytes
  rw [validateOutputRecords_eq_ok_iff hpos]
  by_cases hbytes : (records.flatMap fun r => r.payload ++ r.separator) = []
  · -- a lone `\r` is a byte
    refine iff_of_true (.inl hbytes) fun r hr hlone => ?_
    have := flatMap_eq_nil_iff.mp hbytes r hr
    rw [hlone.1] at this
    simp at this
  have hseen : (!(records.flatMap (Record.frames limits.maxSourceFrameBytes)).flatten.isEmpty) =
    true := by
    simpa [frames_flatten hn, List.isEmpty_iff] using hbytes
  simp only [hbytes, false_or, decodeFrames_eq_ok_iff_feed hpos hlen, hseen]
  rcases feed_of_decodeFrames hjson h with ⟨hfull, out, rest, last, hfeed, hlast, hne⟩ |
      ⟨⟨r, hr, hfull⟩, hfeed⟩
  · refine iff_of_true ⟨_, ⟨out, rest, last, hfeed, hlast, ?_, rfl⟩, fun r _ h => absurd h hjsonl⟩
      hfull
    exact or_iff_not_imp_left.mpr fun hcsv => hne (not_not.mp hcsv)
  · refine iff_of_false ?_ fun hall => hall r hr hfull
    rintro ⟨rs, ⟨out, rest, last, hsome, -⟩, -⟩
    cases hfeed.symm.trans hsome

end Identity

/-! ### One record of lines -/

section Line

variable {limits : DecoderLimits} {r : Record} {rs : List Record} {n : Nat}

/-- A record as a decoder of lines emits it; a `\r` before the `\n` is not of the payload. -/
structure Record.IsLine (r : Record) : Prop where
  opens : lf ∉ r.payload
  separator : r.separator = [] ∨ r.separator = [cr, lf] ∨
    r.separator = [lf] ∧ r.payload.getLast? ≠ some cr

/-- The record is within the limit, with the `\r` of its separator where that arrives alone. -/
def Record.Within (limits : DecoderLimits) (r : Record) : Prop :=
  r.payload.length ≤ limits.maxRecordBytes ∧
    (limits.maxSourceFrameBytes = 1 → r.separator = [cr, lf] →
      r.payload.length < limits.maxRecordBytes)

/-- A record of lines is open, or the record of its line. -/
theorem Record.IsLine.cases (h : r.IsLine) : r.separator = [] ∨
    ∃ line, lf ∉ line ∧ lineRecord line = r ∧ r.payload ++ r.separator = line ++ [lf] := by
  obtain ⟨payload, separator⟩ := r
  rcases h with ⟨hopen, rfl | rfl | ⟨rfl, hcr⟩⟩
  · exact .inl rfl
  · exact .inr ⟨payload ++ [cr], by simpa [lf, cr] using hopen, by simp [lineRecord], by simp⟩
  · exact .inr ⟨payload, hopen, by rw [lineRecord, if_neg hcr], rfl⟩

theorem Record.frames_flatten (hn : 0 < n) (r : Record) :
    (r.frames n).flatten = r.payload ++ r.separator := by
  simp [Record.frames, chunks_flatten hn]

theorem Record.length_of_mem_frames (r : Record) : ∀ frame ∈ r.frames n, frame.length ≤ n := by
  simpa using Records.length_of_mem_frames [r] n

/-- Parts of a line that are exchanged for parts without control characters. -/
def Exchanged (part part' : Bytes) : Prop := part' = part ∨ part' ≠ [] ∧ ∀ b ∈ part', 0x20 ≤ b

theorem exchanged_flatten {parts parts' : List Bytes} (h : Forall₂ Exchanged parts parts') :
    (parts'.flatten = [] → parts.flatten = []) ∧ (lf ∈ parts'.flatten → lf ∈ parts.flatten) ∧
      (parts'.flatten.getLast? = some cr → parts.flatten.getLast? = some cr) := by
  induction h with
  | nil => exact ⟨id, id, id⟩
  | @cons part part' parts parts' hpart _ ih =>
    simp only [flatten_cons, append_eq_nil_iff, mem_append, getLast?_append, Option.or_eq_some_iff,
      getLast?_eq_none_iff]
    obtain ⟨hnil, hlf, hcr⟩ := ih
    rcases hpart with rfl | ⟨hne, hcontrol⟩
    · exact ⟨.imp_right hnil, .imp_right hlf, .imp hcr (.imp_left hnil)⟩
    · have hnot : ∀ b ∈ part', b ≠ lf ∧ b ≠ cr := by
        rintro b hb
        have := hcontrol b hb
        constructor <;> rintro rfl <;> exact absurd this (by decide)
      refine ⟨fun h => absurd h.1 hne, .imp (fun h => absurd rfl (hnot lf h).1) hlf,
        .imp hcr fun h => ?_⟩
      exact absurd rfl (hnot cr (mem_of_getLast? h.2)).2

/-- A line stays one. -/
theorem Record.IsLine.exchange {parts parts' : List Bytes} {separator : Bytes}
    (h : Record.IsLine ⟨parts.flatten, separator⟩) (hparts : Forall₂ Exchanged parts parts') :
    Record.IsLine ⟨parts'.flatten, separator⟩ :=
  have ⟨_, hlf, hcr⟩ := exchanged_flatten hparts
  ⟨fun hmem => h.opens (hlf hmem), h.separator.imp_right (.imp_right (.imp_right (mt hcr)))⟩

variable [Parsers]

/-- The record that a decoder of lines gives back is within the limit, and a text. -/
theorem line_of_decodeFrames (hr : r.IsLine) (hne : r.payload ≠ [])
    (h : decodeFrames .jsonl limits (r.frames limits.maxSourceFrameBytes) = .ok rs) :
    r.Within limits ∧ utf8Ok r.payload = true ∧ rs = [r] := by
  obtain ⟨hpos, hlen⟩ := limits_of_decodeFrames h
  have hflatten := r.frames_flatten hpos.1
  obtain ⟨out, rest, last, hfeed, hlast, -, rfl⟩ := (decodeFrames_eq_ok_iff_feed hpos hlen).mp h
  have hdrain := ((feed_eq_some_iff next_nil).mp hfeed).1
  have hfits := (fits_of_length (by simp)).mp (feed_rest next_nil fits_nil hfeed).2
  rw [nil_append, hflatten] at hdrain
  rcases hr.cases with hs | ⟨line, hline, hrecord, hwhole⟩
  · have hnext : lineNext limits r.payload = _ := lineNext_open hr.opens
    rw [hs, append_nil] at hdrain
    split at hnext
    · rw [drain_more hnext] at hdrain
      cases hdrain
      rw [lastRecords, if_neg fun h => hne h.1] at hlast
      split at hlast
      · next hutf8 =>
        cases hlast
        refine ⟨⟨hfits, fun _ h => ?_⟩, hutf8, by rw [nil_append, ← hs]⟩
        rw [hs] at h
        cases h
      · cases hlast
    · rw [drain_fail hnext] at hdrain
      cases hdrain
  · have hnext : lineNext limits (line ++ [lf]) = _ := lineNext_line hline []
    rw [hrecord] at hnext
    rw [hwhole] at hdrain
    split at hnext
    · next hok =>
      rw [drain_found hnext, drain_more next_nil] at hdrain
      cases hdrain
      obtain rfl : last = [] := by simpa [lastRecords, hflatten, hne] using hlast.symm
      refine ⟨⟨hok.1, fun h1 hs => ?_⟩, hok.2, rfl⟩
      have := length_of_feed (by simp) (fun frame hframe => h1 ▸ hlen frame hframe) fits_nil hfeed r
        mem_cons_self
      rw [hs] at this
      simpa using this
    · rw [drain_fail hnext] at hdrain
      cases hdrain

/-- A text within the limit decodes to itself. -/
theorem decodeFrames_line (hpos : limits.Positive) (hr : r.IsLine) (hne : r.payload ≠ [])
    (hwithin : r.Within limits) (hutf8 : utf8Ok r.payload = true) :
    decodeFrames .jsonl limits (r.frames limits.maxSourceFrameBytes) = .ok [r] := by
  obtain ⟨hle, hone⟩ := hwithin
  have hn := hpos.1
  have hflatten := r.frames_flatten hn
  have hseen : (!(r.payload ++ r.separator).isEmpty) = true := by simp [hne]
  rw [decodeFrames_eq_ok_iff_feed hpos r.length_of_mem_frames, hflatten, hseen]
  rcases hr.cases with hs | ⟨line, hline, rfl, -⟩
  · have hopens : ∀ q, q <+: r.payload → (splitter .jsonl limits).next q = .more q := fun q hq =>
      (lineNext_open fun h => hr.opens (hq.mem h)).trans (if_pos (.inl (hq.length_le.trans hle)))
    have hfeed := Held.empty.feed_payload hn (by simp) hopens hle (by simp)
    refine ⟨[], r.payload, [r], ?_, ?_, .inl (by simp), rfl⟩
    · rw [Record.frames, hs]
      simpa [chunks, chunks.go] using hfeed
    · rw [lastRecords, if_neg fun h => hne h.1, if_pos hutf8, ← hs]
  · have hframed : Framed .jsonl limits (lineRecord line) :=
      framed_line rfl (by simp) hline hle hutf8
    have hlone : ¬ (lineRecord line).LoneFull limits := by
      rintro ⟨hs, -⟩
      rcases hr.separator with h | h | ⟨h, -⟩ <;> exact absurd (h.symm.trans hs) (by decide)
    obtain ⟨out, p', es', hheld, hout, hfeed⟩ :=
      Held.empty.feed_record hn (by simp) hframed hone hlone
    exact ⟨out, p', es', hfeed, hheld.last (by simp), .inl (by simp), hout⟩

/-- **The validator and one record of JSONL**: it must be within the limit, and a JSON text. -/
theorem validateOutputRecords_line_iff (hpos : limits.Positive) (hr : r.IsLine)
    (hne : r.payload ≠ []) : validateOutputRecords .jsonl [r] limits = .ok () ↔
      r.Within limits ∧ utf8Ok r.payload = true ∧ (Parsers.json r.payload).isOk = true := by
  rw [validateOutputRecords_eq_ok_iff hpos]
  simp only [flatMap_cons, flatMap_nil, append_nil, append_eq_nil_iff, hne, false_and, false_or]
  constructor
  · rintro ⟨rs, hdecode, hpass⟩
    obtain ⟨hwithin, -, rfl⟩ := line_of_decodeFrames hr hne hdecode
    exact ⟨hwithin, hpass r mem_cons_self rfl⟩
  · rintro ⟨hwithin, hutf8, hjson⟩
    refine ⟨[r], decodeFrames_line hpos hr hne hwithin hutf8, fun r' hr' _ => ?_⟩
    rw [mem_singleton.mp hr']
    exact ⟨hutf8, hjson⟩

end Line

/-- `abc\rdef` in one frame decodes; pushed as records, the `\r` behind `abc` waits for its
successor. -/
theorem full_record_before_lone_cr_rejected : letI := lenientParsers
    decodeFrames .csv smallLimits [[0x61, 0x62, 0x63, cr, 0x64, 0x65, 0x66]] =
      .ok [⟨[0x61, 0x62, 0x63], [cr]⟩, ⟨[0x64, 0x65, 0x66], []⟩] ∧
    validateOutputRecords .csv [⟨[0x61, 0x62, 0x63], [cr]⟩, ⟨[0x64, 0x65, 0x66], []⟩] smallLimits =
      .error ⟨Codes.recordTooLarge, "CSV record size 4 exceeds limit 3"⟩ := by
  let _ := lenientParsers
  decide +kernel

/-- `ab\rdef` passes: its first record is below the limit. -/
theorem short_record_before_lone_cr_passes : letI := lenientParsers
    validateOutputRecords .csv [⟨[0x61, 0x62], [cr]⟩, ⟨[0x64, 0x65, 0x66], []⟩] smallLimits =
      .ok () := by
  let _ := lenientParsers
  have hdecode : decodeFrames .csv smallLimits [[0x61, 0x62, cr, 0x64, 0x65, 0x66]] =
      .ok [⟨[0x61, 0x62], [cr]⟩, ⟨[0x64, 0x65, 0x66], []⟩] := by decide +kernel
  refine (validateOutputRecords_iff (.inr (.inr rfl)) hdecode).mpr ?_
  simp [Record.LoneFull, smallLimits]

end S4.Records
