import S4.Lib.Fallible
import S4.Records.Splitters

/-!
# Records — Refinement

The decoder splits its stream as the splitter of its format does.

Between calls the decoder holds the rest of the stream, and what it remembers of the scan is what a
scan of that rest from its beginning would find (`Scanned`).  `prepareNext` then agrees with
`Splitter.next` (`prepareNext_spec`), and frames that are pushed and drained one after the other
agree with `Splitter.feed` (`pushFrames_spec`); the end of the stream gives `lastRecords`.  So
frames decode to the records of their stream, if no cut leaves a rest beyond the limit
(`decodeFrames_toOption`).
-/

namespace S4.Records

open Lib List RecordDecoder Nat

variable {n : Nat} {byte : UInt8} {bytes : Bytes} {d' d₁ : RecordDecoder} {atEof : Bool}
  {r : Record} {atEof : Bool}

namespace RecordDecoder

/-- The scan that the decoder remembers is the scan of the bytes that it holds. -/
def Scanned (d : RecordDecoder) : Prop :=
  d.scanOffset ≤ d.pending.length ∧
  match d.format with
  | .csv => csvScan d.limits.maxCsvFields .fieldStart 1 (d.pending.take d.scanOffset) =
      .open d.csvState d.csvFields
  | .json => True
  | _ => lf ∉ d.pending.take d.scanOffset

/-- `d'` is `d` with other buffers. -/
structure Buffers (d d' : RecordDecoder) (pending : Bytes) (ready : Option Record) : Prop where
  format : d'.format = d.format
  limits : d'.limits = d.limits
  finished : d'.finished = d.finished
  complete : d'.complete = d.complete
  inputSeen : d'.inputSeen = d.inputSeen
  recordsEmitted : d'.recordsEmitted = d.recordsEmitted
  pending : d'.pending = pending
  ready : d'.ready = ready
  scanned : d'.Scanned

/-- What a splitter says about a buffer, as the outcome of `prepareNext`. -/
def Prepares (d : RecordDecoder) (outcome : Except S4Error RecordDecoder) :
    Split UInt8 Record → Prop
  | .found r rest => ∃ d', outcome = .ok d' ∧ d.Buffers d' rest (some r)
  | .more rest =>
    if fits d.format d.limits rest then ∃ d', outcome = .ok d' ∧ d.Buffers d' rest none
    else ∃ e, outcome = .error e
  | .fail => ∃ e, outcome = .error e

section Emit

variable [Parsers]

theorem validateUtf8_eq (bytes : Bytes) (code : String) :
    (utf8Ok bytes = true ∧ validateUtf8 bytes code = .ok ()) ∨
    (utf8Ok bytes = false ∧ ∃ e, validateUtf8 bytes code = .error e) := by
  simp only [utf8Ok, validateUtf8]
  cases Parsers.utf8 bytes with
  | ok => exact .inl ⟨rfl, rfl⟩
  | error => exact .inr ⟨rfl, _, rfl⟩

variable {d : RecordDecoder} {payload separator rest : Bytes}

/-- A record at the front of the buffer is emitted if it is valid. -/
theorem emit_eq (hp : d.pending = payload ++ separator ++ rest) (code : String) :
    (payload.length ≤ d.limits.maxRecordBytes ∧ utf8Ok payload = true ∧
      d.emit payload.length payload.length (payload.length + separator.length) code =
        .ok { d with ready := some ⟨payload, separator⟩, pending := rest, scanOffset := 0 }) ∨
    (¬ (payload.length ≤ d.limits.maxRecordBytes ∧ utf8Ok payload = true) ∧
      ∃ e, d.emit payload.length payload.length (payload.length + separator.length) code =
        .error e) := by
  have htake : d.pending.take payload.length = payload := by
    rw [hp, append_assoc, take_left]
  have hsep : (d.pending.take (payload.length + separator.length)).drop payload.length =
      separator := by
    rw [← length_append, hp, take_left, drop_left]
  have hrest : d.pending.drop (payload.length + separator.length) = rest := by
    rw [← length_append, hp, drop_left]
  simp only [emit, htake, hsep, hrest]
  by_cases hlen : payload.length ≤ d.limits.maxRecordBytes
  · rw [if_neg (by omega)]
    rcases validateUtf8_eq payload code with ⟨hok, hv⟩ | ⟨hbad, e, hv⟩
    · exact .inl ⟨hlen, hok, by rw [hv]; rfl⟩
    · exact .inr ⟨by simp [hbad], e, by rw [hv]; rfl⟩
  · rw [if_pos (by omega)]
    exact .inr ⟨fun h => hlen h.1, _, rfl⟩

end Emit

/-! ### Lines -/

section Lines

variable {d : RecordDecoder} {line rest : Bytes}

theorem findIdx?_open {p : Bytes} (h : lf ∉ p) (n : Nat) :
    (p.drop n).findIdx? (· == lf) = none := by
  simp only [findIdx?_eq_none_iff, beq_eq_false_iff_ne]
  exact fun x hx hlf => h (hlf ▸ mem_of_mem_drop hx)

theorem findIdx?_line (hline : lf ∉ line) (hn : n ≤ line.length) (rest : Bytes) :
    ((line ++ lf :: rest).drop n).findIdx? (· == lf) = some (line.length - n) := by
  rw [drop_append_of_le_length hn, findIdx?_append, findIdx?_open hline]
  simp [findIdx?_cons]

/-- A scan that has found no line end has not passed one. -/
theorem scanOffset_le_line (h : lf ∉ (line ++ lf :: rest).take n) : n ≤ line.length := by
  by_contra hlt
  obtain ⟨k, hk⟩ : ∃ k, n - line.length = k + 1 := ⟨n - line.length - 1, by omega⟩
  refine h ?_
  rw [take_append, hk, take_succ_cons]
  exact mem_append_right _ mem_cons_self

theorem lineRecord_eq (line rest : Bytes) :
    line ++ lf :: rest = (lineRecord line).payload ++ (lineRecord line).separator ++ rest ∧
    (if 0 < line.length ∧ (line ++ lf :: rest)[line.length - 1]? = some cr then line.length - 1
      else line.length) = (lineRecord line).payload.length ∧
    line.length + 1 = (lineRecord line).payload.length + (lineRecord line).separator.length := by
  rcases eq_nil_or_concat line with rfl | ⟨init, last, rfl⟩
  · exact ⟨rfl, rfl, rfl⟩
  · by_cases hcr : last = cr
    · simp [lineRecord, hcr]
    · simp [lineRecord, hcr]

variable [Parsers]

theorem prepareLine_open (h : lf ∉ d.pending) (hle : d.pending.length ≤ d.limits.maxRecordBytes) :
    d.prepareLine false = .ok { d with scanOffset := d.pending.length } := by
  simp [prepareLine, findIdx?_open h, ensurePendingLimit, not_lt.mpr hle]

theorem prepareLine_long (h : lf ∉ d.pending) (hlt : d.limits.maxRecordBytes < d.pending.length)
    (atEof : Bool) : ∃ e, d.prepareLine atEof = .error e := by
  simp only [prepareLine, findIdx?_open h, ensurePendingLimit, gt_iff_lt, if_pos hlt]
  exact ⟨_, rfl⟩

theorem prepareLine_line (hp : d.pending = line ++ lf :: rest) (hline : lf ∉ line)
    (hn : d.scanOffset ≤ line.length) (atEof : Bool) :
    d.prepareLine atEof = d.emit (lineRecord line).payload.length (lineRecord line).payload.length
      ((lineRecord line).payload.length + (lineRecord line).separator.length)
      Codes.decodeEncoding := by
  obtain ⟨-, hend, hlen⟩ := lineRecord_eq line rest
  simp only [prepareLine, hp, findIdx?_line hline hn]
  rw [Nat.add_sub_cancel' hn, hend, hlen]

theorem prepareLine_spec (hs : d.scanOffset ≤ d.pending.length ∧ lf ∉ d.pending.take d.scanOffset)
    (hf : d.format = .text ∨ d.format = .jsonl ∨ d.format = .tsv) (hr : d.ready = none) :
    d.Prepares (d.prepareLine false) (lineNext d.limits d.pending) := by
  have hscanned : ∀ {d' : RecordDecoder}, d'.format = d.format → d'.scanOffset ≤ d'.pending.length →
      lf ∉ d'.pending.take d'.scanOffset → d'.Scanned := by
    intro d' hfor hle hlf
    rcases hf with e | e | e <;> exact ⟨hle, by simp only [hfor, e]; exact hlf⟩
  have hfits : ∀ p, fits d.format d.limits p = decide (p.length ≤ d.limits.maxRecordBytes) := by
    intro p
    rcases hf with e | e | e <;> simp [fits, e]
  obtain hopen | ⟨line, rest, hline, hp⟩ := line_cases d.pending
  · rw [lineNext_open hopen]
    by_cases hle : d.pending.length ≤ d.limits.maxRecordBytes
    · have hwaits : lineWaits d.limits.maxRecordBytes d.pending := .inl hle
      rw [prepareLine_open hopen hle, if_pos hwaits]
      simp only [Prepares, hfits, hle, decide_true, if_true]
      refine ⟨_, rfl, rfl, rfl, rfl, rfl, rfl, rfl, rfl, hr, hscanned rfl le_rfl ?_⟩
      rwa [take_length]
    · have herr := prepareLine_long hopen (not_le.mp hle) false
      split
      · simpa [Prepares, hfits, hle] using herr
      · exact herr
  · have hn : d.scanOffset ≤ line.length := scanOffset_le_line (hp ▸ hs.2)
    rw [prepareLine_line hp hline hn, hp, lineNext_line hline]
    rcases emit_eq (hp.trans (lineRecord_eq line rest).1) Codes.decodeEncoding with
      ⟨hle, hok, hemit⟩ | ⟨hbad, e, hemit⟩
    · rw [if_pos ⟨hle, hok⟩]
      exact ⟨_, hemit, rfl, rfl, rfl, rfl, rfl, rfl, rfl, rfl,
        hscanned rfl (zero_le _) (by simp)⟩
    · rw [if_neg hbad]
      exact ⟨e, hemit⟩

end Lines

/-! ### CSV -/

section Csv

variable {d : RecordDecoder} {state : CsvState} {fields fuel : Nat}
  {seen payload rest p separator : Bytes}

/-- The decoder with its scan moved to `offset`. -/
def scanTo (d : RecordDecoder) (offset : Nat) (state : CsvState) (fields : Nat) : RecordDecoder :=
  { d with scanOffset := offset, csvState := state, csvFields := fields }

/-- A scan that fails has been open up to the byte at which it does. -/
theorem csvScan_bad_open {maxCsvFields : Nat} (h : csvScan maxCsvFields state fields p = .bad) :
    ∃ seen state' fields' byte bytes e,
      p = seen ++ byte :: bytes ∧ csvScan maxCsvFields state fields seen = .open state' fields' ∧
      state'.scan maxCsvFields fields' byte = .error e := by
  induction p generalizing state fields with
  | nil => cases h
  | cons byte bytes ih =>
    rw [csvScan] at h
    cases hm : state.scan maxCsvFields fields byte with
    | error e => exact ⟨[], state, fields, byte, bytes, e, rfl, rfl, hm⟩
    | ok move =>
      cases move with
      | boundary => simp [hm] at h
      | advance =>
        simp only [hm, CsvScan.after_eq_bad] at h
        obtain ⟨seen, st, n, b, bs, e, rfl, hopen, herr⟩ := ih h
        exact ⟨byte :: seen, st, n, b, bs, e, rfl, by simp [csvScan, hm, hopen], herr⟩

/-- The scan from the remembered position, for a scan from the beginning. -/
theorem scan_rest (hc : csvScan d.limits.maxCsvFields .fieldStart 1 (d.pending.take d.scanOffset) =
      .open d.csvState d.csvFields) :
    csvScan d.limits.maxCsvFields .fieldStart 1 d.pending =
      (csvScan d.limits.maxCsvFields d.csvState d.csvFields (d.pending.drop d.scanOffset)).after
        (d.pending.take d.scanOffset) := by
  conv_lhs => rw [← take_append_drop d.scanOffset d.pending]
  rw [csvScan_append, hc]

/-- The line end behind the payload, as `csvBoundary` finds it. -/
theorem csvBoundary_eq (atEof : Bool) (hp : d.pending = payload ++ byte :: bytes) :
    d.csvBoundary payload.length atEof = match csvSeparator (byte :: bytes) with
      | some (separator, _) => some (payload.length, payload.length + separator.length)
      | none => if atEof then some (payload.length, payload.length + 1) else none := by
  have hbyte : d.pending[payload.length]? = some byte := by simp [hp]
  have hnext : d.pending[payload.length + 1]? = bytes.head? := by
    rw [hp, getElem?_append_right (by omega), Nat.add_sub_cancel_left, getElem?_cons_succ]
    cases bytes <;> rfl
  simp only [csvBoundary, hbyte, hnext, csvSeparator, Option.some.injEq]
  by_cases hlf : byte = lf
  · simp [hlf]
  simp only [if_neg hlf]
  cases bytes with
  | nil => rfl
  | cons next =>
    simp only [head?_cons]
    by_cases hnext : next = lf <;> simp [hnext]

theorem scanTo_scanned (hf : d.format = .csv) (hp : d.pending = payload ++ rest)
    (h : csvScan d.limits.maxCsvFields .fieldStart 1 payload = .open state fields) :
    (d.scanTo payload.length state fields).Scanned := by
  refine ⟨?_, ?_⟩
  · simp only [scanTo, hp, length_append]
    omega
  · simp only [scanTo, hf, hp, take_left]
    exact h

theorem scanned_reset (hf : d'.format = .csv) (ho : d'.scanOffset = 0)
    (hs : d'.csvState = .fieldStart) (hn : d'.csvFields = 1) : d'.Scanned := by
  refine ⟨by rw [ho]; exact zero_le _, ?_⟩
  simp [hf, ho, hs, hn, csvScan]

/-- A buffer whose scan does not end at once has no empty line at its front. -/
theorem skipEmpty_of_scan (maxCsvFields : Nat)
    (h : ∀ rest, csvScan maxCsvFields .fieldStart 1 p ≠ .ends [] rest) : skipEmpty p = p := by
  match p with
  | [] => rfl
  | byte :: bytes =>
    refine StartsRecord.skipEmpty ⟨byte, bytes, rfl, ?_, ?_⟩
    · rintro rfl
      exact h _ rfl
    · rintro rfl
      exact h _ rfl

theorem skipEmpty_separator (hb : byte = lf ∨ byte = cr)
    (h : csvSeparator (byte :: bytes) = some (separator, rest)) :
    skipEmpty (byte :: bytes) = skipEmpty rest := by
  have hcr : cr ≠ lf := by decide
  match bytes with
  | [] =>
    rcases hb with rfl | rfl
    · cases h
      rfl
    · cases h
  | next :: bytes =>
    rcases hb with rfl | rfl
    · simp only [csvSeparator, if_true, Option.some.injEq, Prod.mk.injEq] at h
      rw [← h.2]
      simp [skipEmpty]
    simp only [csvSeparator, if_neg hcr] at h
    split at h
    · next hnext =>
      cases h
      simp [skipEmpty, hcr, hnext]
    · next hnext =>
      cases h
      simp [skipEmpty, hcr, hnext]

/-- What a splitter says about a buffer, as the outcome of the loop of `prepareCsv`.  A buffer that
has outgrown the limit is left to the check behind the loop. -/
def Loops (d : RecordDecoder) (outcome : Except S4Error (Bool × RecordDecoder)) :
    Split UInt8 Record → Prop
  | .found r rest => ∃ d', outcome = .ok (true, d') ∧ d.Buffers d' rest (some r)
  | .more rest => ∃ d', outcome = .ok (false, d') ∧ d.Buffers d' rest none
  | .fail => (∃ e, outcome = .error e) ∨
      ∃ d', outcome = .ok (false, d') ∧ d'.limits = d.limits ∧
        d.limits.maxRecordBytes < d'.pending.length

theorem Buffers.trans {d₂ : RecordDecoder} {p₁ p₂ : Bytes} {r₁ r₂ : Option Record}
    (h : d.Buffers d₁ p₁ r₁) (h' : d₁.Buffers d₂ p₂ r₂) : d.Buffers d₂ p₂ r₂ :=
  ⟨h'.format.trans h.format, h'.limits.trans h.limits, h'.finished.trans h.finished,
    h'.complete.trans h.complete, h'.inputSeen.trans h.inputSeen,
    h'.recordsEmitted.trans h.recordsEmitted, h'.pending, h'.ready, h'.scanned⟩

theorem Loops.of_buffers {r : Option Record}
    {outcome : Except S4Error (Bool × RecordDecoder)} {split : Split UInt8 Record}
    (h : d.Buffers d₁ p r) (hl : d₁.Loops outcome split) : d.Loops outcome split := by
  cases split with
  | found | more =>
    obtain ⟨d', e, hb⟩ := hl
    exact ⟨d', e, h.trans hb⟩
  | fail =>
    refine hl.imp_right ?_
    rintro ⟨d', e, hlim, hlong⟩
    exact ⟨d', e, hlim.trans h.limits, h.limits ▸ hlong⟩

variable [Parsers]

/-- One round for one byte that does not end the record. -/
theorem csvLoop_run (hp : d.pending.drop d.scanOffset = seen ++ rest)
    (hs : csvScan d.limits.maxCsvFields d.csvState d.csvFields seen = .open state fields) :
    csvLoop atEof (fuel + seen.length) d =
      csvLoop atEof fuel (d.scanTo (d.scanOffset + seen.length) state fields) := by
  induction seen generalizing d with
  | nil =>
    cases hs
    rfl
  | cons byte bytes ih =>
    have hbyte : d.pending[d.scanOffset]? = some byte := by
      rw [← head?_drop, hp]
      rfl
    have hdrop : d.pending.drop (d.scanOffset + 1) = bytes ++ rest := by
      rw [← drop_drop, hp]
      rfl
    rw [csvScan] at hs
    rw [length_cons, ← add_assoc, csvLoop]
    simp only [hbyte]
    cases hm : d.csvState.scan d.limits.maxCsvFields d.csvFields byte with
    | error => simp [hm] at hs
    | ok move =>
      cases move with
      | boundary => simp [hm] at hs
      | advance =>
        simp only [hm] at hs ⊢
        rw [ih hdrop (CsvScan.after_eq_open.mp hs)]
        simp only [scanTo]
        congr 2
        omega

theorem csvLoop_done (h : d.pending.length ≤ d.scanOffset) :
    csvLoop atEof fuel d = .ok (false, d) := by
  cases fuel with
  | zero => rfl
  | succ => simp [csvLoop, getElem?_eq_none h]

theorem csvLoop_open (atEof : Bool) (hs : d.Scanned) (hf : d.format = .csv)
    (hfuel : d.pending.length - d.scanOffset ≤ fuel)
    (h : csvScan d.limits.maxCsvFields .fieldStart 1 d.pending = .open state fields) :
    csvLoop atEof fuel d = .ok (false, d.scanTo d.pending.length state fields) := by
  simp only [Scanned, hf] at hs
  rw [scan_rest hs.2, CsvScan.after_eq_open] at h
  have hlen : (d.pending.drop d.scanOffset).length = d.pending.length - d.scanOffset :=
    length_drop
  obtain ⟨k, rfl⟩ : ∃ k, fuel = k + (d.pending.drop d.scanOffset).length :=
    ⟨fuel - (d.pending.length - d.scanOffset), by omega⟩
  rw [csvLoop_run (append_nil _).symm h, hlen, Nat.add_sub_cancel' hs.1]
  exact csvLoop_done le_rfl

theorem csvLoop_bad (hs : d.Scanned) (hf : d.format = .csv)
    (hfuel : d.pending.length - d.scanOffset ≤ fuel)
    (h : csvScan d.limits.maxCsvFields .fieldStart 1 d.pending = .bad) :
    ∃ e, csvLoop atEof fuel d = .error e := by
  simp only [Scanned, hf] at hs
  rw [scan_rest hs.2, CsvScan.after_eq_bad] at h
  obtain ⟨seen, state, fields, byte, bytes, e, hp, hopen, herr⟩ := csvScan_bad_open h
  have hlen : seen.length + (bytes.length + 1) = d.pending.length - d.scanOffset := by
    rw [← length_drop, hp, length_append, length_cons]
  obtain ⟨k, rfl⟩ : ∃ k, fuel = k + 1 + seen.length := ⟨fuel - 1 - seen.length, by omega⟩
  have hbyte : d.pending[d.scanOffset + seen.length]? = some byte := by
    rw [← head?_drop, ← drop_drop, hp, drop_left]
    rfl
  rw [csvLoop_run hp hopen]
  simp only [csvLoop, scanTo, hbyte, herr]
  exact ⟨e, rfl⟩

/-- The round that finds a line end behind the payload. -/
theorem csvLoop_ends (hs : d.Scanned) (hf : d.format = .csv)
    (hfuel : d.pending.length - d.scanOffset ≤ fuel)
    (h : csvScan d.limits.maxCsvFields .fieldStart 1 d.pending = .ends payload rest) :
    ∃ state fields k,
      csvScan d.limits.maxCsvFields .fieldStart 1 payload = .open state fields ∧
      rest.length ≤ k + 1 ∧
      csvLoop atEof fuel d = match d.csvBoundary payload.length atEof with
        | none => .ok (false, d.scanTo payload.length state fields)
        | some (payloadEnd, separatorEnd) =>
          if state = .fieldStart ∧ payloadEnd = 0 then
            csvLoop atEof k
              ((d.scanTo payload.length state fields).consumeCsvEmpty separatorEnd)
          else ((d.scanTo payload.length state fields).emitCsv payloadEnd separatorEnd).map
            (true, ·) := by
  simp only [Scanned, hf] at hs
  rw [scan_rest hs.2, CsvScan.after_eq_ends] at h
  obtain ⟨tail, rfl, h⟩ := h
  obtain ⟨state, fields, byte, bytes, hp, hopen, rfl, hbound⟩ := csvScan_ends_open h
  have hlen : tail.length + (bytes.length + 1) = d.pending.length - d.scanOffset := by
    rw [← length_drop, hp, length_append, length_cons]
  obtain ⟨k, rfl⟩ : ∃ k, fuel = k + 1 + tail.length := ⟨fuel - 1 - tail.length, by omega⟩
  have hoff : (d.pending.take d.scanOffset ++ tail).length = d.scanOffset + tail.length := by
    rw [length_append, length_take, min_eq_left hs.1]
  have hbyte : d.pending[d.scanOffset + tail.length]? = some byte := by
    rw [← head?_drop, ← drop_drop, hp, drop_left]
    rfl
  refine ⟨state, fields, k, ?_, ?_, ?_⟩
  · rw [csvScan_append, hs.2]
    simp [hopen]
  · simp only [length_cons]
    omega
  · rw [csvLoop_run hp hopen, hoff, csvLoop]
    simp only [scanTo, hbyte, hbound]
    rfl

theorem validateCsv_eq (hp : d.pending.take payload.length = payload) :
    (csvOk d.limits payload = true ∧ d.validateCsv payload.length = .ok ()) ∨
    (csvOk d.limits payload = false ∧ ∃ e, d.validateCsv payload.length = .error e) := by
  simp only [validateCsv, csvOk, hp, length_append, length_singleton]
  generalize Parsers.csv (payload ++ [lf]) d.limits.maxCsvFields = read
  by_cases hrec : read.record = false ∨ read.consumed ≠ payload.length + 1
  · rw [if_pos (by simpa using hrec)]
    refine .inr ⟨?_, _, rfl⟩
    rcases hrec with hrec | hrec <;> simp [hrec]
  rw [if_neg (by simpa using hrec)]
  simp only [not_or, Bool.not_eq_false, not_not] at hrec
  by_cases hfields : read.fields ≤ d.limits.maxCsvFields
  · rw [if_neg (by omega)]
    exact .inl ⟨by simp [hrec, hfields], rfl⟩
  · rw [if_pos (by omega)]
    exact .inr ⟨by simp [hfields], _, rfl⟩

theorem emitCsv_eq (hp : d.pending = payload ++ separator ++ rest) :
    (csvValid d.limits payload ∧ d.emitCsv payload.length (payload.length + separator.length) =
      .ok { d with
        ready := some ⟨payload, separator⟩
        pending := rest
        scanOffset := 0
        csvState := .fieldStart
        csvFields := 1 }) ∨
    (¬ csvValid d.limits payload ∧
      ∃ e, d.emitCsv payload.length (payload.length + separator.length) = .error e) := by
  have htake : d.pending.take payload.length = payload := by
    rw [hp, append_assoc, take_left]
  rcases validateCsv_eq htake with ⟨hcsv, hval⟩ | ⟨hcsv, e, hval⟩
  · rcases validateUtf8_eq payload Codes.decodeEncoding with ⟨hok, hu⟩ | ⟨hbad, e, hu⟩
    · rcases emit_eq hp Codes.decodeCsv with ⟨hle, -, hemit⟩ | ⟨hbad, e, hemit⟩
      · refine .inl ⟨⟨hle, hcsv, hok⟩, ?_⟩
        simp only [emitCsv, htake, hval, hu, hemit]
        rfl
      · refine .inr ⟨fun h => hbad ⟨h.1, h.2.2⟩, e, ?_⟩
        simp only [emitCsv, htake, hval, hu, hemit]
        rfl
    · refine .inr ⟨fun h => by simp [h.2.2] at hbad, e, ?_⟩
      simp only [emitCsv, htake, hval, hu]
      rfl
  · refine .inr ⟨fun h => by simp [h.2.1] at hcsv, e, ?_⟩
    simp only [emitCsv, hval]
    rfl

/-- The loop at a record whose end is in the buffer. -/
theorem csvLoop_record (hs : d.Scanned) (hf : d.format = .csv) (hr : d.ready = none)
    (hfuel : d.pending.length - d.scanOffset ≤ fuel) (hne : payload ≠ [])
    (hscan : csvScan d.limits.maxCsvFields .fieldStart 1 d.pending = .ends payload rest) :
    d.Loops (csvLoop false fuel d) (csvRecord d.limits d.pending) := by
  obtain ⟨hp, byte, bytes, rfl, -⟩ := csvScan_ends hscan
  obtain ⟨state, fields, k, hopen, -, hloop⟩ := csvLoop_ends hs hf hfuel hscan
  rw [csvBoundary_eq false hp] at hloop
  simp only [csvRecord, hscan]
  cases hsep : csvSeparator (byte :: bytes) with
  | none =>
    simp only [hsep] at hloop ⊢
    by_cases hle : payload.length ≤ d.limits.maxRecordBytes
    · rw [if_pos hle]
      exact ⟨_, hloop, rfl, rfl, rfl, rfl, rfl, rfl, rfl, hr, scanTo_scanned hf hp hopen⟩
    · rw [if_neg hle]
      refine .inr ⟨_, hloop, rfl, ?_⟩
      simp only [scanTo, hp, length_append, length_cons]
      omega
  | some found =>
    obtain ⟨separator, rest⟩ := found
    obtain ⟨hbytes, -⟩ := csvSeparator_eq hsep
    have hk : ¬ (state = .fieldStart ∧ payload.length = 0) := fun h =>
      hne (length_eq_zero_iff.mp h.2)
    have hp' : (d.scanTo payload.length state fields).pending = payload ++ separator ++ rest := by
      rw [append_assoc, ← hbytes]
      exact hp
    simp only [hsep, if_neg hk] at hloop ⊢
    rcases emitCsv_eq hp' with ⟨hvalid, hemit⟩ | ⟨hbad, e, hemit⟩
    · rw [if_pos (show csvValid d.limits payload from hvalid)]
      rw [hemit] at hloop
      exact ⟨_, hloop, rfl, rfl, rfl, rfl, rfl, rfl, rfl, rfl, scanned_reset hf rfl rfl rfl⟩
    · rw [if_neg (show ¬ csvValid d.limits payload from hbad)]
      rw [hemit] at hloop
      exact .inl ⟨e, hloop⟩

theorem csvLoop_spec (hs : d.Scanned) (hf : d.format = .csv) (hr : d.ready = none)
    (hfuel : d.pending.length - d.scanOffset ≤ fuel) :
    d.Loops (csvLoop false fuel d) (csvNext d.limits d.pending) := by
  induction hn : d.pending.length using Nat.strong_induction_on generalizing d fuel with
  | _ n ih =>
    cases hscan : csvScan d.limits.maxCsvFields .fieldStart 1 d.pending with
    | bad =>
      rw [csvNext, skipEmpty_of_scan d.limits.maxCsvFields (by simp [hscan])]
      simp only [csvRecord, hscan]
      exact .inl (csvLoop_bad hs hf hfuel hscan)
    | «open» state fields =>
      rw [csvNext, skipEmpty_of_scan d.limits.maxCsvFields (by simp [hscan])]
      have hloop := csvLoop_open false hs hf hfuel hscan
      simp only [csvRecord, hscan]
      by_cases hle : d.pending.length ≤ d.limits.maxRecordBytes
      · rw [if_pos hle]
        refine ⟨_, hloop, rfl, rfl, rfl, rfl, rfl, rfl, rfl, hr, ?_⟩
        exact scanTo_scanned hf (append_nil _).symm hscan
      · rw [if_neg hle]
        exact .inr ⟨_, hloop, rfl, not_le.mp hle⟩
    | ends payload rest =>
      by_cases hne : payload = []
      · -- an empty line, which the loop drops
        subst hne
        obtain ⟨hp, byte, bytes, rfl, hb⟩ := csvScan_ends hscan
        obtain ⟨state, fields, k, hopen, hk, hloop⟩ := csvLoop_ends hs hf hfuel hscan
        cases hopen
        rw [csvBoundary_eq false hp] at hloop
        rw [nil_append] at hp
        cases hsep : csvSeparator (byte :: bytes) with
        | none =>
          obtain ⟨byte', e, hlf⟩ := csvSeparator_none hsep (cons_ne_nil _ _)
          cases e
          cases hb.resolve_left hlf
          simp only [hsep] at hloop
          rw [hp]
          exact ⟨_, hloop, rfl, rfl, rfl, rfl, rfl, rfl, hp, hr,
            scanned_reset hf rfl rfl rfl⟩
        | some found =>
          obtain ⟨separator, rest⟩ := found
          obtain ⟨hbytes, hsepne⟩ := csvSeparator_eq hsep
          have hlt := length_pos_of_ne_nil hsepne
          simp only [hsep, length_nil, zero_add, and_self, if_true] at hloop
          have hrest : d.pending.drop separator.length = rest := by
            rw [hp, hbytes, drop_left]
          have hlen : d.pending.length = separator.length + rest.length := by
            rw [hp, hbytes, length_append]
          have hbuf : d.Buffers ((d.scanTo 0 .fieldStart 1).consumeCsvEmpty separator.length)
              rest none :=
            ⟨rfl, rfl, rfl, rfl, rfl, rfl, hrest, hr, scanned_reset hf rfl rfl rfl⟩
          have hkrest : rest.length ≤ k := by
            have := congrArg length hbytes
            rw [length_append] at this
            omega
          have hleft : ((d.scanTo 0 .fieldStart 1).consumeCsvEmpty
              separator.length).pending.length - 0 ≤ k := by
            rw [hbuf.pending]
            exact hkrest
          have := ih rest.length (by omega) hbuf.scanned hf hr hleft
            (congrArg length hbuf.pending)
          rw [hbuf.pending] at this
          rw [hloop, hp, csvNext, skipEmpty_separator hb hsep]
          exact .of_buffers hbuf this
      · have hskip : skipEmpty d.pending = d.pending :=
          skipEmpty_of_scan d.limits.maxCsvFields (by simp [hscan, hne])
        rw [csvNext, hskip]
        exact csvLoop_record hs hf hr hfuel hne hscan

theorem prepareCsv_of_emitted
    (h : csvLoop atEof d.pending.length d = .ok (true, d')) : d.prepareCsv atEof = .ok d' := by
  simp only [prepareCsv, h]
  rfl

theorem prepareCsv_of_error {e : S4Error}
    (h : csvLoop atEof d.pending.length d = .error e) : d.prepareCsv atEof = .error e := by
  simp only [prepareCsv, h]
  rfl

theorem prepareCsv_spec (hs : d.Scanned) (hf : d.format = .csv) (hr : d.ready = none) :
    d.Prepares (d.prepareCsv false) (csvNext d.limits d.pending) := by
  have hloops := csvLoop_spec hs hf hr (sub_le _ _)
  cases hnext : csvNext d.limits d.pending with
  | found =>
    rw [hnext] at hloops
    obtain ⟨d', hloop, hbuf⟩ := hloops
    exact ⟨d', prepareCsv_of_emitted hloop, hbuf⟩
  | more rest =>
    rw [hnext] at hloops
    obtain ⟨d', hloop, hbuf⟩ := hloops
    simp only [Prepares, fits, hf, decide_eq_true_eq]
    split
    · next hle =>
      refine ⟨d', ?_, hbuf⟩
      simp [prepareCsv, hloop, ensurePendingLimit, hbuf.pending, hbuf.limits, not_lt.mpr hle]
    · next hlong =>
      refine ⟨limitError Codes.recordTooLarge "CSV record" rest.length d.limits.maxRecordBytes, ?_⟩
      simp [prepareCsv, hloop, ensurePendingLimit, hbuf.pending, hbuf.limits, not_le.mp hlong]
  | fail =>
    rw [hnext] at hloops
    rcases hloops with ⟨e, hloop⟩ | ⟨d', hloop, hlim, hlong⟩
    · exact ⟨e, prepareCsv_of_error hloop⟩
    · refine ⟨limitError Codes.recordTooLarge "CSV record" d'.pending.length
        d.limits.maxRecordBytes, ?_⟩
      simp [prepareCsv, hloop, ensurePendingLimit, hlim, hlong]

end Csv

/-! ### The next record -/

section Next

variable {d : RecordDecoder}

variable [Parsers]

theorem prepareJson_spec (hs : d.Scanned) (hf : d.format = .json) (hr : d.ready = none) :
    d.Prepares (d.prepareJson false) (jsonNext d.limits d.pending) := by
  simp only [jsonNext]
  by_cases hle : d.pending.length ≤ d.limits.maxJsonDocumentBytes
  · rw [if_pos hle]
    simp only [Prepares, fits, hf, hle, decide_true, if_true]
    refine ⟨d, ?_, rfl, rfl, rfl, rfl, rfl, rfl, rfl, hr, hs⟩
    simp [prepareJson, ensurePendingLimit, not_lt.mpr hle]
  · rw [if_neg hle]
    refine ⟨limitError Codes.recordTooLarge "JSON document" d.pending.length
      d.limits.maxJsonDocumentBytes, ?_⟩
    simp [prepareJson, ensurePendingLimit, not_le.mp hle]

/-- **Before the end of the stream the decoder finds what the splitter finds.** -/
theorem prepareNext_spec (hs : d.Scanned) (hr : d.ready = none) (hc : d.complete = false) :
    d.Prepares (d.prepareNext false) ((splitter d.format d.limits).next d.pending) := by
  have hprep : ¬ (d.ready.isSome = true ∨ d.complete = true) := by simp [hr, hc]
  simp only [prepareNext, if_neg hprep]
  cases hf : d.format with
  | csv => exact prepareCsv_spec hs hf hr
  | json => exact prepareJson_spec hs hf hr
  | text | jsonl | tsv =>
    have hline : d.scanOffset ≤ d.pending.length ∧ lf ∉ d.pending.take d.scanOffset := by
      simpa only [Scanned, hf] using hs
    exact prepareLine_spec hline (by simp [hf]) hr

end Next

/-! ### Frames -/

/-- Between calls the decoder holds the rest of the stream. -/
structure Holds (d : RecordDecoder) (format : Format) (limits : DecoderLimits) (rest : Bytes)
    (seen : Bool) (emitted : Nat) : Prop where
  format : d.format = format
  limits : d.limits = limits
  pending : d.pending = rest
  ready : d.ready = none
  finished : d.finished = false
  complete : d.complete = false
  inputSeen : d.inputSeen = seen
  recordsEmitted : d.recordsEmitted = emitted
  scanned : d.Scanned

/-- Records and the rest of the stream, as the outcome of calls. -/
def Yields (format : Format) (limits : DecoderLimits) (seen : Bool) (emitted : Nat)
    (outcome : Except S4Error (List Record × RecordDecoder)) :
    Option (List Record × Bytes) → Prop
  | some (records, rest) => ∃ d', outcome = .ok (records, d') ∧
      d'.Holds format limits rest seen (emitted + records.length)
  | none => ∃ e, outcome = .error e

variable {frames : List Bytes}

section Frames

variable {d : RecordDecoder} {format : Format} {limits : DecoderLimits} {p rest chunk : Bytes}
  {seen : Bool} {emitted fuel : Nat}

/-- The decoder that has prepared a record hands it out. -/
theorem Holds.take (h : d.Holds format limits p seen emitted) (hb : d.Buffers d' rest (some r)) :
    Holds { d' with ready := none, recordsEmitted := d'.recordsEmitted + 1 } format limits rest seen
      (emitted + 1) := by
  refine ⟨hb.format.trans h.format, hb.limits.trans h.limits, hb.pending, rfl,
    hb.finished.trans h.finished, hb.complete.trans h.complete, hb.inputSeen.trans h.inputSeen, ?_,
    hb.scanned⟩
  simp only [hb.recordsEmitted, h.recordsEmitted]

theorem Holds.leave (h : d.Holds format limits p seen emitted)
    (hb : d.Buffers d' rest none) : d'.Holds format limits rest seen emitted :=
  ⟨hb.format.trans h.format, hb.limits.trans h.limits, hb.pending, hb.ready,
    hb.finished.trans h.finished, hb.complete.trans h.complete, hb.inputSeen.trans h.inputSeen,
    hb.recordsEmitted.trans h.recordsEmitted, hb.scanned⟩

/-- Records are taken before others. -/
theorem Yields.append {taken : List Record} {outcome : Except S4Error (List Record × RecordDecoder)}
    {found : Option (List Record × Bytes)}
    (h : Yields format limits seen (emitted + taken.length) outcome found) :
    Yields format limits seen emitted (outcome >>= fun e => pure (taken ++ e.1, e.2))
      (found.map fun e => (taken ++ e.1, e.2)) := by
  cases found with
  | none =>
    obtain ⟨e, he⟩ := h
    exact ⟨e, by rw [he]; rfl⟩
  | some =>
    obtain ⟨d', he, hh⟩ := h
    refine ⟨d', by rw [he]; rfl, ?_⟩
    rwa [length_append, ← add_assoc]

/-- More bytes behind the buffer do not change what has been scanned. -/
theorem Scanned.append (hs : d.Scanned) (chunk : Bytes) (seen : Bool) :
    Scanned { d with inputSeen := seen, pending := d.pending ++ chunk } := by
  have htake : (d.pending ++ chunk).take d.scanOffset = d.pending.take d.scanOffset :=
    take_append_of_le_length hs.1
  refine ⟨?_, ?_⟩
  · simp only [length_append]
    exact le_add_right_of_le hs.1
  · simp only [htake]
    exact hs.2

variable [Parsers]

theorem Holds.prepares (h : d.Holds format limits p seen emitted) :
    d.Prepares (d.prepareNext false) ((splitter format limits).next p) := by
  have hprep := prepareNext_spec h.scanned h.ready h.complete
  rwa [h.format, h.limits, h.pending] at hprep

/-- A record is taken, and the rest is drained. -/
theorem drainRecords_cons (hnext : (splitter format limits).next p = .found r rest)
    (hrec : d.nextRecord = .ok (some r, d'))
    (hrest : Yields format limits seen (emitted + 1) (drainRecords fuel d')
      (((splitter format limits).drain rest).filter fun e => fits format limits e.2)) :
    Yields format limits seen emitted (drainRecords (fuel + 1) d)
      (((splitter format limits).drain p).filter fun e => fits format limits e.2) := by
  have hstep : drainRecords (fuel + 1) d =
      drainRecords fuel d' >>= fun e => pure ([r] ++ e.1, e.2) := by
    simp only [drainRecords, hrec]
    rfl
  rw [hstep, Splitter.drain_found hnext, Option.filter_map]
  exact hrest.append

/-- **Records are taken as the splitter drains the rest.** -/
theorem drainRecords_spec (h : d.Holds format limits p seen emitted) (hfuel : p.length < fuel) :
    Yields format limits seen emitted (drainRecords fuel d)
      (((splitter format limits).drain p).filter fun e => fits format limits e.2) := by
  induction fuel generalizing d p emitted with
  | zero => omega
  | succ fuel ih =>
    have hnone : d.ready.isNone = true := by rw [h.ready]; rfl
    have hprep := h.prepares
    cases hnext : (splitter format limits).next p with
    | found r =>
      rw [hnext] at hprep
      obtain ⟨d', hd', hb⟩ := hprep
      have hlt := (splitter format limits).found_lt hnext
      have hrec : d.nextRecord = .ok (some r,
          { d' with ready := none, recordsEmitted := d'.recordsEmitted + 1 }) := by
        simp only [nextRecord, hnone, if_true, h.finished, hd']
        simp only [hb.ready, ok_bind, pure_eq_ok]
      exact drainRecords_cons hnext hrec (ih (h.take hb) (by omega))
    | more =>
      rw [hnext] at hprep
      simp only [Prepares, h.format, h.limits] at hprep
      rw [Splitter.drain_more hnext, Option.filter_some]
      split
      · next hfits =>
        rw [if_pos hfits] at hprep
        obtain ⟨d', hd', hb⟩ := hprep
        refine ⟨d', ?_, h.leave hb⟩
        simp only [drainRecords, nextRecord, hnone, if_true, h.finished, hd']
        simp only [hb.ready, ok_bind, pure_eq_ok]
      · next hfits =>
        rw [if_neg hfits] at hprep
        obtain ⟨e, he⟩ := hprep
        refine ⟨e, ?_⟩
        simp only [drainRecords, nextRecord, hnone, if_true, h.finished, he]
        rfl
    | fail =>
      rw [hnext] at hprep
      obtain ⟨e, he⟩ := hprep
      rw [Splitter.drain_fail hnext]
      refine ⟨e, ?_⟩
      simp only [drainRecords, nextRecord, hnone, if_true, h.finished, he]
      rfl

/-- A frame is pushed and drained as the splitter drains it behind the rest. -/
theorem push_spec (h : d.Holds format limits p seen emitted)
    (hlen : chunk.length ≤ limits.maxSourceFrameBytes) :
    Yields format limits (seen || !chunk.isEmpty) emitted (d.push chunk >>= drain)
      (((splitter format limits).drain (p ++ chunk)).filter fun e => fits format limits e.2) := by
  let d₀ : RecordDecoder :=
    { d with inputSeen := d.inputSeen || !chunk.isEmpty, pending := d.pending ++ chunk }
  have hpush : d.push chunk = d₀.prepareNext false := by
    simp [push, d₀, h.finished, h.ready, h.limits, hlen]
  have h₀ : d₀.Holds format limits (p ++ chunk) (seen || !chunk.isEmpty) emitted := by
    refine ⟨h.format, h.limits, ?_, h.ready, h.finished, h.complete, ?_, h.recordsEmitted,
      h.scanned.append chunk _⟩
    · simp only [d₀, h.pending]
    · simp only [d₀, h.inputSeen]
  rw [hpush]
  have hprep := h₀.prepares
  cases hnext : (splitter format limits).next (p ++ chunk) with
  | found r rest =>
    -- the record is ready; what is left is drained from the rest
    rw [hnext] at hprep
    obtain ⟨d', hd', hb⟩ := hprep
    have hrec : d'.nextRecord = .ok (some r,
        { d' with ready := none, recordsEmitted := d'.recordsEmitted + 1 }) := by
      simp [nextRecord, hb.ready]
    have hfuel : rest.length < d'.bufferedBytes + 1 := by
      simp only [bufferedBytes, hb.pending]
      omega
    rw [hd']
    exact drainRecords_cons hnext hrec (drainRecords_spec (h₀.take hb) hfuel)
  | more rest =>
    rw [hnext] at hprep
    simp only [Prepares, h₀.format, h₀.limits] at hprep
    have hsame : (splitter format limits).drain (p ++ chunk) =
        (splitter format limits).drain rest := by
      rw [Splitter.drain_more hnext, Splitter.drain_more
        (Splitter.next_rest (Splitter.drain_more hnext))]
    split at hprep
    · next hfits =>
      obtain ⟨d', hd', hb⟩ := hprep
      rw [hsame, hd']
      refine drainRecords_spec (h₀.leave hb) ?_
      simp only [bufferedBytes, hb.pending]
      omega
    · next hfits =>
      obtain ⟨e, he⟩ := hprep
      rw [Splitter.drain_more hnext, Option.filter_some, if_neg hfits, he]
      exact ⟨e, rfl⟩
  | fail =>
    rw [hnext] at hprep
    obtain ⟨e, he⟩ := hprep
    rw [Splitter.drain_fail hnext, he]
    exact ⟨e, rfl⟩

theorem pushFrames_cons (frames : List Bytes) :
    d.pushFrames (chunk :: frames) = (d.push chunk >>= drain) >>= fun e =>
      e.2.pushFrames frames >>= fun e' => pure (e.1 ++ e'.1, e'.2) := by
  rw [bind_assoc]
  rfl

/-- **Frames are pushed as the splitter is fed.** -/
theorem pushFrames_spec (h : d.Holds format limits p seen emitted)
    (hlen : ∀ frame ∈ frames, frame.length ≤ limits.maxSourceFrameBytes) :
    Yields format limits (seen || !frames.flatten.isEmpty) emitted (d.pushFrames frames)
      ((splitter format limits).feed (fits format limits) p frames) := by
  induction frames generalizing d p seen emitted with
  | nil => exact ⟨d, rfl, by simpa using h⟩
  | cons chunk frames ih =>
    have hfirst := push_spec h (hlen chunk mem_cons_self)
    rw [pushFrames_cons, Splitter.feed]
    cases hdrain : (splitter format limits).drain (p ++ chunk) with
    | none =>
      simp only [hdrain, Option.filter_none] at hfirst
      obtain ⟨e, he⟩ := hfirst
      exact ⟨e, by rw [he]; rfl⟩
    | some =>
      simp only [hdrain, Option.filter_some, Option.bind_some] at hfirst ⊢
      split at hfirst
      · next hfits =>
        obtain ⟨d', he, hh⟩ := hfirst
        have hseen : (seen || !(chunk :: frames).flatten.isEmpty) =
            (seen || !chunk.isEmpty || !frames.flatten.isEmpty) := by
          cases chunk <;> simp
        have hrest := ih hh fun frame hframe => hlen frame (mem_cons_of_mem _ hframe)
        rw [if_pos hfits, hseen, he]
        exact hrest.append
      · next hfits =>
        obtain ⟨e, he⟩ := hfirst
        rw [if_neg hfits]
        exact ⟨e, by rw [he]; rfl⟩

/-- Frames beyond the limit are not taken. -/
theorem length_of_pushFrames {e : List Record × RecordDecoder}
    (h : d.Holds format limits p seen emitted) (he : d.pushFrames frames = .ok e) :
    ∀ frame ∈ frames, frame.length ≤ limits.maxSourceFrameBytes := by
  induction frames generalizing d p seen emitted e with
  | nil => simp
  | cons chunk frames ih =>
    have hlen : chunk.length ≤ limits.maxSourceFrameBytes := by
      by_contra hlong
      simp [pushFrames, push, h.finished, h.ready, h.limits, Nat.lt_of_not_le hlong] at he
    have hfirst := push_spec h hlen
    rw [pushFrames_cons] at he
    cases hout : d.push chunk >>= drain with
    | error =>
      rw [hout] at he
      cases he
    | ok taken =>
      rw [hout] at he hfirst
      have hholds : ∃ rest, taken.2.Holds format limits rest (seen || !chunk.isEmpty)
          (emitted + taken.1.length) := by
        cases hdrain : ((splitter format limits).drain (p ++ chunk)).filter
            fun e => fits format limits e.2 with
        | none =>
          rw [hdrain] at hfirst
          obtain ⟨e, he⟩ := hfirst
          cases he
        | some found =>
          rw [hdrain] at hfirst
          obtain ⟨d', he, hh⟩ := hfirst
          cases he
          exact ⟨_, hh⟩
      obtain ⟨rest, hholds⟩ := hholds
      obtain ⟨later, hlater⟩ : ∃ later, taken.2.pushFrames frames = .ok later := by
        cases hlater : taken.2.pushFrames frames with
        | error =>
          simp [hlater] at he
        | ok later => exact ⟨later, rfl⟩
      exact forall_mem_cons.mpr ⟨hlen, ih hholds hlater⟩

end Frames

/-! ### The end of the stream -/

/-- The stream has ended, and there is no record behind the one that is ready. -/
def Spent [Parsers] (d : RecordDecoder) : Prop :=
  d.finished = true ∧ ∀ n, ∃ d', prepareNext { d with ready := none, recordsEmitted := n } true =
    .ok d' ∧ d'.ready = none

/-- The last records, as the outcome of `prepareNext` at the end of the stream. -/
def Ends [Parsers] (d : RecordDecoder) (outcome : Except S4Error RecordDecoder) :
    Option (List Record) → Prop
  | some last => ∃ d', outcome = .ok d' ∧ d'.ready.toList = last ∧ d'.Spent ∧
      d'.format = d.format ∧ d'.recordsEmitted = d.recordsEmitted
  | none => ∃ e, outcome = .error e

section End

variable {d : RecordDecoder} {format : Format} {limits : DecoderLimits} {p : Bytes}
  {seen : Bool} {emitted : Nat}

variable [Parsers]

theorem Spent.of_complete (hf : d.finished = true) (hc : d.complete = true) : d.Spent := by
  refine ⟨hf, fun n => ⟨{ d with ready := none, recordsEmitted := n }, ?_, rfl⟩⟩
  simp [prepareNext, hc]

theorem Spent.of_csv (hf : d.finished = true) (hfor : d.format = .csv) (hp : d.pending = [])
    (hs : d.csvState = .fieldStart) : d.Spent := by
  by_cases hc : d.complete = true
  · exact .of_complete hf hc
  · refine ⟨hf, fun n => ⟨{ d with ready := none, recordsEmitted := n, complete := true }, ?_, rfl⟩⟩
    simp [prepareNext, hc, hfor, prepareCsv, hp, csvLoop, hs, ensurePendingLimit]

/-- The record that is ready at the end is the last one. -/
theorem Spent.drain (h : d.Spent) : ∃ d', d.drain = .ok (d.ready.toList, d') := by
  cases hr : d.ready with
  | none =>
    obtain ⟨d', hd', hnone⟩ := h.2 d.recordsEmitted
    have hprep : d.prepareNext true = .ok d' := by
      rw [← hd', ← hr]
    refine ⟨d', ?_⟩
    simp [RecordDecoder.drain, drainRecords, nextRecord, hr, h.1, hprep, hnone]
  | some =>
    obtain ⟨d', hd', hnone⟩ := h.2 (d.recordsEmitted + 1)
    rw [h.1] at hd'
    refine ⟨d', ?_⟩
    simp [RecordDecoder.drain, drainRecords, nextRecord, hr, h.1, hd', hnone]

theorem prepareLine_end (hopen : lf ∉ d.pending)
    (hle : d.pending.length ≤ d.limits.maxRecordBytes) (hfin : d.finished = true)
    (hf : d.format = .text ∨ d.format = .jsonl ∨ d.format = .tsv) (hr : d.ready = none) :
    d.Ends (d.prepareLine true) (lastRecords d.format d.limits d.pending d.inputSeen) := by
  have hlast : lastRecords d.format d.limits d.pending d.inputSeen =
      if d.pending = [] ∧ d.inputSeen = true then some []
      else if utf8Ok d.pending = true then some [⟨d.pending, []⟩] else none := by
    rcases hf with e | e | e <;> simp [lastRecords, e]
  rw [hlast]
  by_cases hnone : d.pending = [] ∧ d.inputSeen = true
  · rw [if_pos hnone]
    refine ⟨{ d with scanOffset := d.pending.length, complete := true }, ?_, ?_,
      .of_complete hfin rfl, rfl, rfl⟩
    · simp [prepareLine, ensurePendingLimit, hnone]
    · simp [hr]
  · rw [if_neg hnone]
    have hsome : d.pending ≠ [] ∨ (!d.inputSeen) = true := by
      by_cases hp : d.pending = []
      · exact .inr (by simpa [hp] using hnone)
      · exact .inl hp
    rcases validateUtf8_eq d.pending Codes.decodeEncoding with ⟨hok, hv⟩ | ⟨hbad, e, hv⟩
    · rw [if_pos hok]
      refine ⟨emitFinal { d with scanOffset := d.pending.length }, ?_, rfl,
        .of_complete hfin rfl, rfl, rfl⟩
      simp only [prepareLine, findIdx?_open hopen, ensurePendingLimit, gt_iff_lt,
        if_neg (not_lt.mpr hle), hv, if_pos (And.intro trivial hsome)]
      rfl
    · rw [if_neg (by simp [hbad])]
      refine ⟨e, ?_⟩
      simp only [prepareLine, findIdx?_open hopen, ensurePendingLimit, gt_iff_lt,
        if_neg (not_lt.mpr hle), hv, if_pos (And.intro trivial hsome)]
      rfl

theorem prepareJson_end (hle : d.pending.length ≤ d.limits.maxJsonDocumentBytes)
    (hfin : d.finished = true) (hf : d.format = .json) (hr : d.ready = none) :
    d.Ends (d.prepareJson true) (lastRecords d.format d.limits d.pending d.inputSeen) := by
  simp only [lastRecords, hf]
  by_cases hp : d.pending = []
  · rw [if_pos hp]
    refine ⟨{ d with complete := true }, ?_, by simp [hr], .of_complete hfin rfl, rfl, rfl⟩
    simp [prepareJson, ensurePendingLimit, hp]
  rw [if_neg hp]
  rcases validateUtf8_eq d.pending Codes.decodeEncoding with ⟨hok, hv⟩ | ⟨hbad, e, hv⟩
  · cases hj : Parsers.json d.pending with
    | ok =>
      rw [if_pos ⟨hok, rfl⟩]
      refine ⟨d.emitFinal, ?_, rfl, .of_complete hfin rfl, rfl, rfl⟩
      simp [prepareJson, ensurePendingLimit, not_lt.mpr hle, hp, hv, hj, Except.mapError]
    | error e =>
      rw [if_neg (by simp [Except.isOk, Except.toBool])]
      refine ⟨⟨Codes.decodeJson, e⟩, ?_⟩
      simp [prepareJson, ensurePendingLimit, not_lt.mpr hle, hp, hv, hj, Except.mapError]
  · rw [if_neg (by simp [hbad])]
    refine ⟨e, ?_⟩
    simp [prepareJson, ensurePendingLimit, not_lt.mpr hle, hp, hv]

/-- At the end there is nothing, or a line end behind which nothing came. -/
theorem prepareCsv_end_empty (hs : d.Scanned) (hp : d.pending = [] ∨ d.pending = [cr])
    (hfin : d.finished = true) (hf : d.format = .csv) (hr : d.ready = none) :
    d.Ends (d.prepareCsv true) (some []) := by
  have hloop : ∃ d', csvLoop true d.pending.length d = .ok (false, d') ∧ d'.pending = [] ∧
      d'.csvState = .fieldStart ∧ d'.ready = none ∧ d'.finished = true ∧
      d'.format = d.format ∧ d'.recordsEmitted = d.recordsEmitted := by
    rcases hp with hp | hp
    · refine ⟨d, by rw [hp]; rfl, hp, ?_, hr, hfin, rfl, rfl⟩
      have := hs.2
      simp only [hf, hp, take_nil, csvScan, CsvScan.open.injEq] at this
      exact this.1.symm
    · have hscan : csvScan d.limits.maxCsvFields .fieldStart 1 d.pending = .ends [] [cr] := by
        rw [hp]
        rfl
      obtain ⟨state, fields, k, hopen, -, hloop⟩ := csvLoop_ends hs hf (sub_le _ _) hscan
      cases hopen
      rw [csvBoundary_eq true (hp.trans (nil_append _).symm)] at hloop
      refine ⟨(d.scanTo 0 .fieldStart 1).consumeCsvEmpty 1, ?_, ?_, rfl, hr, hfin, rfl, rfl⟩
      · rw [hloop]
        refine csvLoop_done ?_
        simp [consumeCsvEmpty, resetCsvState, scanTo, hp]
      · simp [consumeCsvEmpty, resetCsvState, scanTo, hp]
  obtain ⟨d', hloop, hp', hs', hr', hfin', hf', hn'⟩ := hloop
  refine ⟨{ d' with complete := true }, ?_, ?_, .of_complete hfin' rfl, hf', hn'⟩
  · simp [prepareCsv, hloop, ensurePendingLimit, hp', hs']
  · simp [hr']

/-- The last record has no line end. -/
theorem prepareCsv_end_open {state : CsvState} {fields : Nat} (hs : d.Scanned)
    (hne : d.pending ≠ []) (hle : d.pending.length ≤ d.limits.maxRecordBytes)
    (hfin : d.finished = true) (hf : d.format = .csv)
    (hscan : csvScan d.limits.maxCsvFields .fieldStart 1 d.pending = .open state fields) :
    d.Ends (d.prepareCsv true)
      (if state ≠ .quoted ∧ csvOk d.limits d.pending = true ∧ utf8Ok d.pending = true then
        some [⟨d.pending, []⟩] else none) := by
  have hloop := csvLoop_open true hs hf (sub_le _ _) hscan
  have hlong : ¬ d.limits.maxRecordBytes < d.pending.length := not_lt.mpr hle
  by_cases hq : state = .quoted
  · rw [if_neg fun h => h.1 hq]
    refine ⟨⟨Codes.decodeCsv, "unterminated quoted CSV field"⟩, ?_⟩
    simp [prepareCsv, hloop, scanTo, ensurePendingLimit, hlong, hq, throw, throwThe,
      MonadExceptOf.throw]
  · have htake : (d.scanTo d.pending.length state fields).pending.take d.pending.length =
        d.pending := take_length
    have hprepare : d.prepareCsv true = do
        (d.scanTo d.pending.length state fields).validateCsv d.pending.length
        validateUtf8 d.pending Codes.decodeEncoding
        return resetCsvState (emitFinal (d.scanTo d.pending.length state fields)) := by
      simp [prepareCsv, hloop, scanTo, ensurePendingLimit, hlong, hq, hne]
    rw [hprepare]
    rcases validateCsv_eq htake with ⟨hcsv, hval⟩ | ⟨hcsv, e, hval⟩
    · rcases validateUtf8_eq d.pending Codes.decodeEncoding with ⟨hok, hu⟩ | ⟨hbad, e, hu⟩
      · rw [if_pos ⟨hq, hcsv, hok⟩, hval, hu]
        exact ⟨_, rfl, rfl, .of_complete hfin rfl, rfl, rfl⟩
      · rw [if_neg fun h => by simp [h.2.2] at hbad, hval, hu]
        exact ⟨e, rfl⟩
    · rw [if_neg fun h => by simp [scanTo, h.2.1] at hcsv, hval]
      exact ⟨e, rfl⟩

/-- The last record ends in a `\r`. -/
theorem prepareCsv_end_record {payload : Bytes} (hs : d.Scanned) (hne : payload ≠ [])
    (hfin : d.finished = true) (hf : d.format = .csv)
    (hscan : csvScan d.limits.maxCsvFields .fieldStart 1 d.pending = .ends payload [cr]) :
    d.Ends (d.prepareCsv true)
      (if csvValid d.limits payload then some [⟨payload, [cr]⟩] else none) := by
  obtain ⟨hp, -⟩ := csvScan_ends hscan
  obtain ⟨state, fields, k, hopen, -, hloop⟩ := csvLoop_ends hs hf (sub_le _ _) hscan
  have hk : ¬ (state = .fieldStart ∧ payload.length = 0) := fun h =>
    hne (length_eq_zero_iff.mp h.2)
  have hnone : csvSeparator [cr] = none := rfl
  have hp' : (d.scanTo payload.length state fields).pending = payload ++ [cr] ++ [] := by
    rw [append_nil]
    exact hp
  rw [csvBoundary_eq true hp, hnone] at hloop
  simp only [if_true, if_neg hk] at hloop
  rcases emitCsv_eq hp' with ⟨hvalid, hemit⟩ | ⟨hbad, e, hemit⟩
  · rw [length_singleton] at hemit
    rw [hemit] at hloop
    rw [if_pos (show csvValid d.limits payload from hvalid)]
    exact ⟨_, prepareCsv_of_emitted hloop, rfl, .of_csv hfin hf rfl rfl, rfl, rfl⟩
  · rw [length_singleton] at hemit
    rw [hemit] at hloop
    rw [if_neg (show ¬ csvValid d.limits payload from hbad)]
    exact ⟨e, prepareCsv_of_error hloop⟩

theorem prepareCsv_end (hs : d.Scanned) (hmore : csvNext d.limits d.pending = .more d.pending)
    (hle : d.pending.length ≤ d.limits.maxRecordBytes) (hfin : d.finished = true)
    (hf : d.format = .csv) (hr : d.ready = none) :
    d.Ends (d.prepareCsv true) (lastRecords d.format d.limits d.pending d.inputSeen) := by
  have hskip : skipEmpty d.pending = d.pending := (csvRecord_more hmore).symm
  rw [csvNext, hskip] at hmore
  simp only [lastRecords, hf]
  rcases or_assoc.mpr (skipEmpty_cases d.pending) with hp | hstart
  · rw [hskip] at hp
    rw [if_pos hp]
    exact prepareCsv_end_empty hs hp hfin hf hr
  rw [hskip] at hstart
  obtain ⟨byte, bytes, e, hlf, hcr⟩ := hstart
  have hp : ¬ (d.pending = [] ∨ d.pending = [cr]) := by
    rw [e]
    rintro (h | h)
    · cases h
    · cases h
      exact hcr rfl
  rw [if_neg hp]
  cases hscan : csvScan d.limits.maxCsvFields .fieldStart 1 d.pending with
  | bad =>
    obtain ⟨e, hloop⟩ := csvLoop_bad hs hf (sub_le _ _) hscan
    exact ⟨e, prepareCsv_of_error hloop⟩
  | «open» state fields =>
    exact prepareCsv_end_open hs (fun h => hp (.inl h)) hle hfin hf hscan
  | ends =>
    obtain ⟨hpending, b, bs, rfl, hb⟩ := csvScan_ends hscan
    -- the splitter waits, so that the line end is a `\r` at the end of the buffer
    have hsep : csvSeparator (b :: bs) = none := by
      simp only [csvRecord, hscan] at hmore
      cases hsep : csvSeparator (b :: bs) with
      | none => rfl
      | some =>
        simp only [hsep] at hmore
        split at hmore <;> cases hmore
    obtain ⟨b', hb', hlf'⟩ := csvSeparator_none hsep (cons_ne_nil _ _)
    cases hb'
    cases hb.resolve_left hlf'
    refine prepareCsv_end_record hs ?_ hfin hf hscan
    rintro rfl
    rw [e] at hpending
    cases hpending
    exact hcr rfl

/-- **At the end of the stream the decoder finds the last records.** -/
theorem Holds.ends (h : d.Holds format limits p seen emitted)
    (hmore : (splitter format limits).next p = .more p) (hfits : fits format limits p = true) :
    Ends { d with finished := true } (prepareNext { d with finished := true } true)
      (lastRecords format limits p seen) := by
  obtain ⟨rfl, rfl, rfl, hr, -, hc, rfl, -, hs⟩ := h
  have hprep : ¬ (d.ready.isSome = true ∨ d.complete = true) := by simp [hr, hc]
  simp only [prepareNext, if_neg hprep]
  cases hf : d.format with
  | csv =>
    rw [hf] at hmore hfits
    simp only [fits, decide_eq_true_eq] at hfits
    simpa only [hf] using prepareCsv_end (d := { d with finished := true }) hs hmore hfits rfl hf hr
  | json =>
    rw [hf] at hfits
    simp only [fits, decide_eq_true_eq] at hfits
    simpa only [hf] using prepareJson_end (d := { d with finished := true }) hfits rfl hf hr
  | text | jsonl | tsv =>
    rw [hf] at hmore hfits
    simp only [fits, decide_eq_true_eq] at hfits
    simpa only [hf] using prepareLine_end (d := { d with finished := true })
      (lineNext_more hmore).2.1 hfits rfl (by simp [hf]) hr

theorem finish_spec (h : d.Holds format limits p seen emitted)
    (hmore : (splitter format limits).next p = .more p) (hfits : fits format limits p = true) :
    match lastRecords format limits p seen with
    | some last =>
      if format = .csv ∧ emitted = 0 ∧ last = [] then ∃ e, d.finish >>= drain = .error e
      else ∃ d', d.finish >>= drain = .ok (last, d')
    | none => ∃ e, d.finish >>= drain = .error e := by
  have hends := h.ends hmore hfits
  have hfinish : d.finish = prepareNext { d with finished := true } true >>= fun d =>
      if d.format = .csv ∧ d.ready.isNone ∧ d.recordsEmitted = 0 then
        throw ⟨Codes.decodeCsv, "no CSV records found"⟩
      else pure d := by
    simp only [finish, h.finished, h.ready]
    rfl
  rw [hfinish]
  cases hlast : lastRecords format limits p seen with
  | none =>
    rw [hlast] at hends
    obtain ⟨e, he⟩ := hends
    exact ⟨e, by rw [he]; rfl⟩
  | some last =>
    rw [hlast] at hends
    obtain ⟨d', he, hready, hspent, hfor, hemit⟩ := hends
    obtain ⟨d'', hdrain⟩ := hspent.drain
    have hfor' : d'.format = format := hfor.trans h.format
    have hemit' : d'.recordsEmitted = emitted := hemit.trans h.recordsEmitted
    have hnone : d'.ready.isNone = true ↔ last = [] := by
      rw [← hready]
      cases d'.ready <;> simp
    have hif : (d'.format = .csv ∧ d'.ready.isNone = true ∧ d'.recordsEmitted = 0) ↔
        (format = .csv ∧ emitted = 0 ∧ last = []) := by
      rw [hfor', hnone, hemit']
      tauto
    simp only [he]
    split
    · next hempty =>
      refine ⟨⟨Codes.decodeCsv, "no CSV records found"⟩, ?_⟩
      simp only [if_pos (hif.mpr hempty), ok_bind]
      rfl
    · next hempty =>
      refine ⟨d'', ?_⟩
      simp only [if_neg (mt hif.mp hempty), hdrain, hready, ok_bind, pure_eq_ok]

end End

end RecordDecoder

/-! ### Streams -/

section Streams

variable {format : Format} {limits : DecoderLimits} {frames : List Bytes} {records : List Record}

/-- The limits with which a decoder is made. -/
def DecoderLimits.Positive (limits : DecoderLimits) : Prop :=
  0 < limits.maxSourceFrameBytes ∧ 0 < limits.maxRecordBytes ∧ 0 < limits.maxJsonDocumentBytes ∧
    0 < limits.maxCsvFields

theorem new_eq (format : Format) (h : limits.Positive) : ∃ d, new format limits = .ok d ∧
    d.Holds format limits [] false 0 := by
  obtain ⟨h₁, h₂, h₃, h₄⟩ := h
  have hpos : ¬ (limits.maxSourceFrameBytes = 0 ∨ limits.maxRecordBytes = 0 ∨
      limits.maxJsonDocumentBytes = 0 ∨ limits.maxCsvFields = 0) := by omega
  refine ⟨_, by rw [new, if_neg hpos], rfl, rfl, rfl, rfl, rfl, rfl, rfl, rfl, ?_⟩
  cases format <;> simp [RecordDecoder.Scanned, csvScan]

theorem new_error (format : Format) (h : ¬ limits.Positive) :
    ∃ e, new format limits = .error e := by
  have hzero : limits.maxSourceFrameBytes = 0 ∨ limits.maxRecordBytes = 0 ∨
      limits.maxJsonDocumentBytes = 0 ∨ limits.maxCsvFields = 0 := by
    simp only [DecoderLimits.Positive] at h
    omega
  exact ⟨_, by rw [new, if_pos hzero]⟩

theorem fits_nil : fits format limits [] = true := by
  cases format <;> simp [fits]

variable [Parsers]

theorem next_nil : (splitter format limits).next [] = .more [] := by
  cases format with
  | csv => rfl
  | json => simp [splitter, jsonSplitter, jsonNext]
  | text | jsonl | tsv => simp [splitter, lineSplitter, lineNext, lineWaits]

/-- What decodes is within the limits. -/
theorem limits_of_decodeFrames (h : decodeFrames format limits frames = .ok records) :
    limits.Positive ∧ ∀ frame ∈ frames, frame.length ≤ limits.maxSourceFrameBytes := by
  have hpos : limits.Positive := by
    by_contra hzero
    obtain ⟨e, he⟩ := new_error format hzero
    simp [decodeFrames, he] at h
  obtain ⟨d, hnew, hholds⟩ := new_eq format hpos
  refine ⟨hpos, ?_⟩
  cases he : d.pushFrames frames with
  | error => simp [decodeFrames, hnew, he] at h
  | ok => exact length_of_pushFrames hholds he

/-- The last records complete those of the frames; a CSV stream must have one. -/
theorem decodeFrames_toOption (hpos : limits.Positive)
    (hlen : ∀ frame ∈ frames, frame.length ≤ limits.maxSourceFrameBytes) :
    (decodeFrames format limits frames).toOption = do
      let (records, rest) ← (splitter format limits).feed (fits format limits) [] frames
      let last ← lastRecords format limits rest (!frames.flatten.isEmpty)
      guard (format ≠ .csv ∨ records ++ last ≠ [])
      return records ++ last := by
  obtain ⟨d, hnew, hholds⟩ := new_eq format hpos
  have hbind : decodeFrames format limits frames = d.pushFrames frames >>= fun e =>
      (e.2.finish >>= RecordDecoder.drain) >>= fun last => pure (e.1 ++ last.1) := by
    simp only [decodeFrames, hnew, bind_assoc]
    rfl
  have hpush := pushFrames_spec hholds hlen
  rw [hbind]
  cases hfeed : (splitter format limits).feed (fits format limits) [] frames with
  | none =>
    rw [hfeed] at hpush
    obtain ⟨e, he⟩ := hpush
    rw [he]
    rfl
  | some fed =>
    rw [hfeed] at hpush
    obtain ⟨d', he, hholds'⟩ := hpush
    obtain ⟨hmore, hfits⟩ := Splitter.feed_rest next_nil fits_nil hfeed
    rw [Bool.false_or, zero_add] at hholds'
    have hfinish := finish_spec hholds' hmore hfits
    rw [he]
    change ((d'.finish >>= RecordDecoder.drain) >>= fun last =>
      pure (fed.1 ++ last.1)).toOption = _
    simp only [Option.bind_eq_bind, Option.bind_some]
    cases hlast : lastRecords format limits fed.2 (!frames.flatten.isEmpty) with
    | none =>
      rw [hlast] at hfinish
      obtain ⟨e, he'⟩ := hfinish
      rw [he']
      rfl
    | some last =>
      rw [hlast] at hfinish
      have hif : (format = .csv ∧ fed.1.length = 0 ∧ last = []) ↔
          ¬ (format ≠ .csv ∨ fed.1 ++ last ≠ []) := by
        simp [length_eq_zero_iff]
      simp only [hif] at hfinish
      by_cases hsome : format ≠ .csv ∨ fed.1 ++ last ≠ []
      · rw [if_neg (not_not.mpr hsome)] at hfinish
        obtain ⟨d'', he'⟩ := hfinish
        rw [he']
        simp only [Option.bind_some, guard, if_pos hsome]
        rfl
      · rw [if_pos hsome] at hfinish
        obtain ⟨e, he'⟩ := hfinish
        rw [he']
        simp only [Option.bind_some, guard, if_neg hsome]
        rfl

theorem decodeFrames_eq_ok_iff_feed (hpos : limits.Positive)
    (hlen : ∀ frame ∈ frames, frame.length ≤ limits.maxSourceFrameBytes) :
    decodeFrames format limits frames = .ok records ↔ ∃ out rest last,
      (splitter format limits).feed (fits format limits) [] frames = some (out, rest) ∧
      lastRecords format limits rest (!frames.flatten.isEmpty) = some last ∧
      (format ≠ .csv ∨ out ++ last ≠ []) ∧ out ++ last = records := by
  have hok : decodeFrames format limits frames = .ok records ↔
      (decodeFrames format limits frames).toOption = some records := by
    cases decodeFrames format limits frames <;> simp [Except.toOption]
  rw [hok, decodeFrames_toOption hpos hlen]
  simp [Option.bind_eq_some_iff]

theorem decode_eq_some_iff {stream : Bytes} : decode format limits stream = some records ↔
    ∃ out rest last, (splitter format limits).drain stream = some (out, rest) ∧
      fits format limits rest = true ∧ lastRecords format limits rest (!stream.isEmpty) =
        some last ∧
      (format ≠ .csv ∨ out ++ last ≠ []) ∧ out ++ last = records := by
  simp [decode, Option.bind_eq_some_iff]

theorem refused_iff {b : Bytes} {e : List Record × Bytes}
    (h : (splitter format limits).drain b = some e) :
    (splitter format limits).Refused (fits format limits) b ↔ fits format limits e.2 = false := by
  constructor
  · rintro ⟨rs, rest, hdrain, hfits⟩
    cases h.symm.trans hdrain
    exact hfits
  · exact fun hfits => ⟨e.1, e.2, h, hfits⟩

/-- **Frames decode to the records of their stream, unless a cut leaves a rest beyond the limit.**
-/
theorem decodeFrames_eq_ok_iff (hpos : limits.Positive)
    (hlen : ∀ frame ∈ frames, frame.length ≤ limits.maxSourceFrameBytes) :
    decodeFrames format limits frames = .ok records ↔
      decode format limits frames.flatten = some records ∧
      ∀ before after, before ++ after = frames → after.flatten ≠ [] →
        ¬ (splitter format limits).Refused (fits format limits) before.flatten := by
  simp only [decodeFrames_eq_ok_iff_feed hpos hlen, decode_eq_some_iff,
    Splitter.feed_eq_some_iff next_nil, nil_append]
  constructor
  · rintro ⟨out, rest, last, ⟨hdrain, hcuts⟩, hlast⟩
    refine ⟨⟨out, rest, last, hdrain, ?_, hlast⟩, fun before after hb _ => ?_⟩
    · -- the cut behind the last frame, if there is one
      by_cases hnil : frames = []
      · subst hnil
        rw [flatten_nil, Splitter.drain_more next_nil] at hdrain
        cases hdrain
        exact fits_nil
      · have := hcuts frames [] (append_nil _) hnil
        rwa [refused_iff hdrain, Bool.not_eq_false] at this
    · by_cases hnil : before = []
      · subst hnil
        rw [flatten_nil, refused_iff (Splitter.drain_more next_nil), Bool.not_eq_false]
        exact fits_nil
      · exact hcuts before after hb hnil
  · rintro ⟨⟨out, rest, last, hdrain, hfits, hlast⟩, hcuts⟩
    refine ⟨out, rest, last, ⟨hdrain, fun before after hb hne => ?_⟩, hlast⟩
    by_cases hafter : after.flatten = []
    · have hall : before.flatten = frames.flatten := by
        rw [← hb, flatten_append, hafter, append_nil]
      rw [hall, refused_iff hdrain, Bool.not_eq_false]
      exact hfits
    · exact hcuts before after hb hafter

end Streams

end S4.Records
