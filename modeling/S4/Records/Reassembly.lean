import S4.Records.Output

/-!
# Records — Reassembly

The decoder loses and invents nothing.  The records of a line format, each with its separator, are
the stream.  Those of CSV are the stream without the line ends of its empty lines
(`withoutEmptyLines`), where a line end in a quoted field is no line end
(`decodeFrames_reassembles`).
-/

namespace S4.Records

open Lib List

/-- The bytes of records, each behind the other. -/
def recordBytes (records : List Record) : Bytes := records.flatMap fun r => r.payload ++ r.separator

/-- The stream without the line ends of empty lines, from inside a quoted field or outside one, and
at the start of a line or behind it.  Every quote opens or closes a quoted field. -/
def withoutEmptyLines : (quoted start : Bool) → Bytes → Bytes
  | _,     _,     [] => []
  | true,  _,     byte :: bytes => byte :: withoutEmptyLines (byte ≠ quote) false bytes
  | false, start, [byte] => if start ∧ (byte = lf ∨ byte = cr) then [] else [byte]
  | false, start, byte :: next :: bytes =>
    if byte = lf then
      (if start then [] else [lf]) ++ withoutEmptyLines false true (next :: bytes)
    else if byte = cr then
      if next = lf then (if start then [] else [cr, lf]) ++ withoutEmptyLines false true bytes
      else (if start then [] else [cr]) ++ withoutEmptyLines false true (next :: bytes)
    else byte :: withoutEmptyLines (byte = quote) false (next :: bytes)

/-- The records of a line format. -/
structure LinesOf (stream : Bytes) (records : List Record) : Prop where
  bytes : recordBytes records = stream
  payload : ∀ r ∈ records, lf ∉ r.payload
  separator : ∀ before r after, records = before ++ r :: after →
    r.separator = [lf] ∨ r.separator = [cr, lf] ∨ r.separator = [] ∧ after = []

/-- The records of CSV.  A line end in a payload is read in a quoted field. -/
structure CsvLinesOf (maxCsvFields : Nat) (stream : Bytes) (records : List Record) : Prop where
  bytes : recordBytes records = withoutEmptyLines false true stream
  payload : ∀ r ∈ records, r.payload ≠ []
  quoted : ∀ r ∈ records, ∀ before byte after, r.payload = before ++ byte :: after →
    byte = cr ∨ byte = lf → ∃ fields, csvScan maxCsvFields .fieldStart 1 before =
      .open .quoted fields

variable {limits : DecoderLimits} {p q rest left : Bytes} {r : Record}
  {rs last records : List Record}
  {maxCsvFields fields fields' : Nat} {state state' : CsvState} {start : Bool}

theorem recordBytes_cons (r : Record) (rs : List Record) :
    recordBytes (r :: rs) = r.payload ++ r.separator ++ recordBytes rs := rfl

/-! ### Lines -/

/-- A record with an end of its own may stand before the others. -/
theorem LinesOf.cons (h : LinesOf left records) (hr : lf ∉ r.payload)
    (hsep : r.separator = [lf] ∨ r.separator = [cr, lf]) :
    LinesOf (r.payload ++ r.separator ++ left) (r :: records) := by
  refine ⟨by rw [recordBytes_cons, h.bytes], by simpa using ⟨hr, h.payload⟩, ?_⟩
  intro before r' after hsplit
  cases before with
  | nil =>
    cases hsplit
    exact hsep.imp_right .inl
  | cons r'' before =>
    exact h.separator before r' after (cons.inj hsplit).2

theorem lineRecord_spec (hline : lf ∉ p) :
    lf ∉ (lineRecord p).payload ∧
      ((lineRecord p).separator = [lf] ∨ (lineRecord p).separator = [cr, lf]) := by
  simp only [lineRecord]
  split
  · exact ⟨fun h => hline (dropLast_subset p h), .inr rfl⟩
  · exact ⟨hline, .inl rfl⟩

variable [Parsers] {seen : Bool} {byte : UInt8} {separator : Bytes}

theorem linesOf_drain (h : (lineSplitter limits).drain p = some (rs, rest))
    (hlast : lf ∉ rest → LinesOf rest last) : LinesOf p (rs ++ last) := by
  refine Splitter.drain_induction
    (motive := fun p rs rest => (lf ∉ rest → LinesOf rest last) → LinesOf p (rs ++ last))
      ?_ ?_ h hlast
  · intro p rest hnext hlast
    obtain ⟨rfl, hopen, -⟩ := lineNext_more hnext
    exact hlast hopen
  · intro p r left rs rest hnext ih hlast
    obtain ⟨line, hline, rfl, rfl, -⟩ := lineNext_found hnext
    rw [(RecordDecoder.lineRecord_eq line left).1]
    exact (ih hlast).cons (lineRecord_spec hline).1 (lineRecord_spec hline).2

/-- What is behind the last line end is the last record. -/
theorem linesOf_last (hopen : lf ∉ rest)
    (h : lastRecords .text limits rest seen = some last) : LinesOf rest last := by
  simp only [lastRecords] at h
  split at h
  · next hnil =>
    cases h
    exact ⟨hnil.1.symm, by simp, by simp⟩
  · split at h
    · cases h
      refine ⟨by simp [recordBytes], by simpa using hopen, ?_⟩
      intro before r after hsplit
      rcases before with _ | ⟨a, before⟩
      · cases hsplit
        exact .inr (.inr ⟨rfl, rfl⟩)
      · simp at hsplit
    · cases h

/-! ### CSV -/

section Csv

omit [Parsers]

/-- What a byte that does not end a record does to the scan. -/
theorem CsvState.scan_advance
    (h : state.scan maxCsvFields fields byte = .ok (.advance state' fields')) :
    (state = .quoted ∧ (state' = .quoted ↔ byte ≠ quote)) ∨
      (state ≠ .quoted ∧ byte ≠ lf ∧ byte ≠ cr ∧ (state' = .quoted ↔ byte = quote)) := by
  have hother : state ≠ .quoted → byte ≠ lf ∧ byte ≠ cr := by
    intro hq
    constructor
    · rintro rfl
      rw [CsvState.scan_lineEnd hq (.inl rfl)] at h
      cases h
    · rintro rfl
      rw [CsvState.scan_lineEnd hq (.inr rfl)] at h
      cases h
  cases state with
  | quoted =>
    refine .inl ⟨rfl, ?_⟩
    simp only [CsvState.scan] at h
    split at h <;> cases h <;> simp_all
  | fieldStart | unquoted | quoteClosed =>
    refine .inr ⟨by simp, (hother (by simp)).1, (hother (by simp)).2, ?_⟩
    simp only [CsvState.scan, incrementCsvFields] at h
    repeat' split at h
    all_goals cases h
    all_goals simp_all [quote, comma]

theorem withoutEmptyLines_skipEmpty (p : Bytes) :
    withoutEmptyLines false true (skipEmpty p) = withoutEmptyLines false true p := by
  fun_induction skipEmpty p with
  | case1 => rfl
  | case2 => simp [withoutEmptyLines]
  | case3 => rfl
  | case4 next rest ih => rw [ih, withoutEmptyLines, if_pos rfl, if_pos rfl, nil_append]
  | case5 rest hlf ih => rw [ih, withoutEmptyLines, if_neg hlf, if_pos rfl, if_pos rfl, if_pos rfl,
      nil_append]
  | case6 next rest hnext hlf ih => rw [ih, withoutEmptyLines, if_neg hlf, if_pos rfl, if_neg hnext,
      if_pos rfl, nil_append]
  | case7 => rfl

theorem withoutEmptyLines_text (hlf : byte ≠ lf) (hcr : byte ≠ cr) (q : Bytes) :
    withoutEmptyLines false start (byte :: q) =
      byte :: withoutEmptyLines (byte = quote) false q := by
  cases q with
  | nil => simp [withoutEmptyLines, hlf, hcr]
  | cons => rw [withoutEmptyLines, if_neg hlf, if_neg hcr]

/-- What the scan of a record passes stays. -/
theorem withoutEmptyLines_open (h : csvScan maxCsvFields state fields p = .open state' fields')
    (start : Bool) (q : Bytes) :
    withoutEmptyLines (state = .quoted) start (p ++ q) =
      p ++ withoutEmptyLines (state' = .quoted) (start && p.isEmpty) q := by
  induction p generalizing state fields start with
  | nil =>
    cases h
    simp
  | cons byte bytes ih =>
    rw [csvScan] at h
    cases hscan : state.scan maxCsvFields fields byte with
    | error => simp [hscan] at h
    | ok move =>
      cases move with
      | boundary => simp [hscan] at h
      | advance =>
        simp only [hscan, CsvScan.after_eq_open] at h
        have ih' := ih h false
        rw [Bool.false_and] at ih'
        rw [cons_append, cons_append, isEmpty_cons, Bool.and_false, ← ih']
        rcases CsvState.scan_advance hscan with ⟨rfl, hnext⟩ | ⟨hstate, hlf, hcr, hnext⟩
        · simp [hnext, withoutEmptyLines]
        · simp [hstate, hnext, withoutEmptyLines_text hlf hcr]

theorem withoutEmptyLines_separator {bytes : Bytes} (hb : byte = lf ∨ byte = cr)
    (h : csvSeparator (byte :: bytes) = some (separator, left)) :
    withoutEmptyLines false false (byte :: bytes) = separator ++
      withoutEmptyLines false true left := by
  cases bytes with
  | nil =>
    simp only [csvSeparator] at h
    split at h <;> cases h
    simp [withoutEmptyLines]
  | cons next =>
    simp only [csvSeparator] at h
    rw [withoutEmptyLines]
    split at h
    · next hlf =>
      cases h
      rw [if_pos hlf, if_neg (by simp), hlf]
    · next hlf =>
      rw [if_neg hlf, if_pos (hb.resolve_left hlf)]
      split at h
      · next hnext =>
        cases h
        rw [if_pos hnext, if_neg (by simp), hb.resolve_left hlf, hnext]
      · next hnext =>
        cases h
        rw [if_neg hnext, if_neg (by simp), hb.resolve_left hlf]

/-- A payload that scans: its line ends are in quoted fields. -/
theorem quoted_of_open (h : csvScan maxCsvFields .fieldStart 1 p = .open state fields)
    {before after : Bytes} (hp : p = before ++ byte :: after) (hb : byte = cr ∨ byte = lf) :
    ∃ fields, csvScan maxCsvFields .fieldStart 1 before = .open .quoted fields := by
  obtain ⟨state₁, fields₁, hbefore⟩ := csvScan_of_part h ⟨byte :: after, hp.symm⟩
  rw [hp, csvScan_append, hbefore] at h
  by_cases hq : state₁ = .quoted
  · exact ⟨fields₁, hq ▸ hbefore⟩
  · simp [csvScan, CsvState.scan_lineEnd hq hb.symm, CsvScan.after] at h

end Csv

/-- A record that the CSV splitter finds behind empty lines. -/
theorem csvNext_found (h : csvNext limits p = .found r left) :
    r.payload ≠ [] ∧ ∃ state fields byte bytes, state ≠ .quoted ∧
      csvScan limits.maxCsvFields .fieldStart 1 r.payload = .open state fields ∧
      skipEmpty p = r.payload ++ byte :: bytes ∧ (byte = lf ∨ byte = cr) ∧
      csvSeparator (byte :: bytes) = some (r.separator, left) := by
  have hstart := startsRecord_of_csvNext h (by simp)
  obtain ⟨tail, hscan, hsep, -⟩ := csvRecord_found h
  obtain ⟨state, fields, byte, bytes, hp, hopen, rfl, hbound⟩ := csvScan_ends_open hscan
  have hb := CsvState.scan_boundary hbound
  refine ⟨fun hnil => ?_, state, fields, byte, bytes, CsvState.ne_quoted_of_boundary hbound, hopen,
    hp, hb, hsep⟩
  obtain ⟨first, tail, heq, hlf, hcr⟩ := hstart
  rw [hp, hnil] at heq
  cases heq
  exact hb.elim hlf hcr

/-- A record and its separator stand before the others. -/
theorem CsvLinesOf.found (h : CsvLinesOf limits.maxCsvFields left records)
    (hnext : csvNext limits p = .found r left) :
    CsvLinesOf limits.maxCsvFields p (r :: records) := by
  obtain ⟨hne, state, fields, byte, bytes, hq, hopen, hskip, hb, hsep⟩ := csvNext_found hnext
  refine ⟨?_, by simpa using ⟨hne, h.payload⟩, ?_⟩
  · have hpayload := withoutEmptyLines_open hopen true (byte :: bytes)
    have hstart : (true && r.payload.isEmpty) = false := by simpa using hne
    simp only [hq, hstart, decide_false] at hpayload
    rw [recordBytes_cons, h.bytes, ← withoutEmptyLines_skipEmpty p, hskip, append_assoc,
      ← withoutEmptyLines_separator hb hsep]
    exact hpayload.symm
  · rintro r' hr' before byte after hsplit hbyte
    rcases mem_cons.mp hr' with rfl | hr'
    · exact quoted_of_open hopen hsplit hbyte
    · exact h.quoted r' hr' before byte after hsplit hbyte

theorem csvLinesOf_drain (h : (csvSplitter limits).drain p = some (rs, rest))
    (hlast : CsvLinesOf limits.maxCsvFields rest last) :
    CsvLinesOf limits.maxCsvFields p (rs ++ last) := by
  refine Splitter.drain_induction (motive := fun p rs rest =>
    CsvLinesOf limits.maxCsvFields rest last → CsvLinesOf limits.maxCsvFields p (rs ++ last))
    ?_ ?_ h hlast
  · intro p rest hnext hlast
    obtain rfl := csvRecord_more hnext
    exact ⟨hlast.bytes.trans (withoutEmptyLines_skipEmpty p), hlast.payload, hlast.quoted⟩
  · intro p r left rs rest hnext ih hlast
    exact (ih hlast).found hnext

omit [Parsers] in
/-- One record is the rest of a stream. -/
theorem CsvLinesOf.single (hne : p ≠ []) (hq : state ≠ .quoted)
    (hopen : csvScan maxCsvFields .fieldStart 1 p = .open state fields)
    (hsep : separator = [] ∨ separator = [cr]) :
    CsvLinesOf maxCsvFields (p ++ separator) [⟨p, separator⟩] := by
  refine ⟨?_, by simpa using hne, ?_⟩
  · have hpayload := withoutEmptyLines_open hopen true separator
    have hstart : (true && p.isEmpty) = false := by simpa using hne
    have hend : withoutEmptyLines false false separator = separator := by
      rcases hsep with rfl | rfl <;> rfl
    simp only [hq, hstart, decide_false, hend] at hpayload
    exact (append_nil _).trans hpayload.symm
  · intro r hr before byte after hsplit hbyte
    rw [mem_singleton.mp hr] at hsplit
    exact quoted_of_open hopen hsplit hbyte

theorem csvLinesOf_last (hmore : csvNext limits rest = .more rest)
    (h : lastRecords .csv limits rest seen = some last) :
    CsvLinesOf limits.maxCsvFields rest last := by
  have hskip : skipEmpty rest = rest := (csvRecord_more hmore).symm
  simp only [lastRecords] at h
  split at h
  · next hnil =>
    cases h
    refine ⟨?_, by simp, by simp⟩
    rcases hnil with rfl | rfl <;> rfl
  · next hne =>
    have hstart : StartsRecord rest := by
      have hcases := skipEmpty_cases rest
      rw [hskip, ← or_assoc] at hcases
      exact hcases.resolve_left hne
    split at h
    · cases h
    · next state fields hopen =>
      split at h
      · next hok =>
        cases h
        simpa only [append_nil] using
          CsvLinesOf.single (fun h => hne (.inl h)) hok.1 hopen (.inl rfl)
      · cases h
    · next payload tail hscan =>
      obtain ⟨state, fields, byte, bytes, hrest, hopen, rfl, hbound⟩ := csvScan_ends_open hscan
      have hb := CsvState.scan_boundary hbound
      -- behind the payload there is half of a line end, or the splitter would have found the record
      have htail : byte :: bytes = [cr] := by
        simp only [csvNext, hskip, csvRecord, hscan] at hmore
        split at hmore
        · next hsep =>
          obtain ⟨byte', htail, hlf⟩ := csvSeparator_none hsep (cons_ne_nil _ _)
          cases htail
          rw [hb.resolve_left hlf]
        · split at hmore <;> cases hmore
      split at h
      · cases h
        rw [hrest, htail]
        refine CsvLinesOf.single ?_ (CsvState.ne_quoted_of_boundary hbound) hopen (.inr rfl)
        rintro rfl
        obtain ⟨first, rest, heq, hlf, hcr⟩ := hstart
        rw [heq] at hrest
        cases hrest
        exact hb.elim hlf hcr
      · cases h

/-- **The decoder loses and invents nothing.**  For a line format the records are the stream, cut
behind its line ends.  For CSV they are the stream without the line ends of empty lines, and a line
end in a record is in a quoted field. -/
theorem decodeFrames_reassembles {format : Format} {frames : List Bytes}
    (h : decodeFrames format limits frames = .ok records) :
    ((format = .text ∨ format = .jsonl ∨ format = .tsv) → LinesOf frames.flatten records) ∧
      (format = .csv → CsvLinesOf limits.maxCsvFields frames.flatten records) := by
  obtain ⟨hpos, hlen⟩ := limits_of_decodeFrames h
  have hdecode := ((decodeFrames_eq_ok_iff_cuts hpos hlen).mp h).1
  obtain ⟨⟨rs, rest⟩, hdrain, hdecode⟩ := Option.bind_eq_some_iff.mp hdecode
  obtain ⟨-, -, hdecode⟩ := Option.bind_eq_some_iff.mp hdecode
  obtain ⟨last, hlast, hdecode⟩ := Option.bind_eq_some_iff.mp hdecode
  obtain ⟨-, -, hdecode⟩ := Option.bind_eq_some_iff.mp hdecode
  obtain rfl : rs ++ last = records := by simpa using hdecode
  constructor
  · intro hline
    have hlast' : lastRecords .text limits rest (!frames.flatten.isEmpty) = some last := by
      rcases hline with rfl | rfl | rfl <;> exact hlast
    rcases hline with rfl | rfl | rfl <;>
      exact linesOf_drain hdrain fun hopen => linesOf_last hopen hlast'
  · rintro rfl
    exact csvLinesOf_drain hdrain (csvLinesOf_last (Splitter.next_rest hdrain) hlast)

omit [Parsers] in
/-- An empty line and a line end in a quoted field. -/
theorem quoted_line_end_reassembles : letI := lenientParsers
    decodeFrames .csv ⟨8, 8, 8, 8⟩ [[lf, quote, cr], [lf, quote, cr]] =
        .ok [⟨[quote, cr, lf, quote], [cr]⟩] ∧
      CsvLinesOf 8 [lf, quote, cr, lf, quote, cr] [⟨[quote, cr, lf, quote], [cr]⟩] := by
  let _ := lenientParsers
  have hdecode : decodeFrames .csv ⟨8, 8, 8, 8⟩ [[lf, quote, cr], [lf, quote, cr]] =
      .ok [⟨[quote, cr, lf, quote], [cr]⟩] := by decide +kernel
  exact ⟨hdecode, (decodeFrames_reassembles hdecode).2 rfl⟩

end S4.Records
