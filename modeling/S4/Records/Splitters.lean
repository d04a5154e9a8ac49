import S4.Lib.Splitter
import S4.Records.Decoder

/-!
# Records — Splitters

What the decoder is for, without its buffers: for each format a splitter of byte streams into
records (`splitter`), and the records of a whole stream (`decode`).

A line splitter looks for `\n`, and a `\r` before it belongs to the separator.  The CSV splitter
drops empty lines and scans for a line end outside quotes; a `\r` at the end of the buffer may be
half of a `\r\n`, so it waits.  The JSON splitter waits for the end of the stream.  In all of them a
record that has outgrown its limit fails, with one exception: a `\r` behind a record of exactly the
limit does not count, since it may belong to the separator.  With this the splitters keep the laws
of `Lib.Splitter`.
-/

namespace S4.Records

open Lib List

variable {max : Nat} {seen : Bytes} {scan : CsvScan} {r : Record}

/-! ### Lines -/

/-- The record of a line without its `\n`. -/
def lineRecord (line : Bytes) : Record :=
  if line.getLast? = some cr then ⟨line.dropLast, [cr, lf]⟩ else ⟨line, [lf]⟩

/-- An unfinished line that a `\n` could still make a record. -/
def lineWaits (max : Nat) (line : Bytes) : Prop :=
  line.length ≤ max ∨ (line.length = max + 1 ∧ line.getLast? = some cr)

instance (max : Nat) (line : Bytes) : Decidable (lineWaits max line) := by
  unfold lineWaits
  infer_instance

section Lines

variable {limits : DecoderLimits} {p line rest : Bytes}

theorem lineRecord_payload_length (line : Bytes) :
    line.length ≤ (lineRecord line).payload.length + 1 ∧
      (lineRecord line).payload.length ≤ line.length := by
  simp only [lineRecord]
  split
  · simp only [length_dropLast]
    omega
  · simp

/-- A buffer is an unfinished line, or starts with a whole one. -/
theorem line_cases (p : Bytes) : lf ∉ p ∨ ∃ line rest, lf ∉ line ∧ p = line ++ lf :: rest := by
  by_cases h : lf ∈ p
  · obtain ⟨line, rest, rfl, hline⟩ := eq_append_cons_of_mem h
    exact .inr ⟨line, rest, hline, rfl⟩
  · exact .inl h

/-- A line that has outgrown the limit has a payload that has. -/
theorem lineRecord_too_long (h : ¬ lineWaits max p) (more : Bytes) :
    max < (lineRecord (p ++ more)).payload.length := by
  simp only [lineWaits, not_or, not_and, not_le] at h
  simp only [lineRecord]
  split
  · next hcr =>
    simp only [length_dropLast, length_append]
    by_cases hmore : more = []
    · subst hmore
      rw [append_nil] at hcr
      have hne : p.length ≠ max + 1 := fun hlen => h.2 hlen hcr
      simp only [length_nil]
      omega
    · have := length_pos_of_ne_nil hmore
      omega
  · simp only [length_append]
    omega

theorem not_lineWaits_append (h : ¬ lineWaits max p) {more : Bytes} :
    ¬ lineWaits max (p ++ more) := by
  have hlong := lineRecord_too_long h more
  have hlen := (lineRecord_payload_length (p ++ more)).2
  rintro (hle | ⟨hlen', hcr⟩)
  · omega
  · simp only [lineRecord, if_pos hcr, length_dropLast] at hlong
    omega

variable [Parsers]

/-- The bytes are UTF-8. -/
def utf8Ok (bytes : Bytes) : Bool := (Parsers.utf8 bytes).isOk

def lineNext (limits : DecoderLimits) (p : Bytes) : Split UInt8 Record :=
  match p.dropWhile (· != lf) with
  | [] => if lineWaits limits.maxRecordBytes p then .more p else .fail
  | _ :: rest =>
    let record := lineRecord (p.takeWhile (· != lf))
    if record.payload.length ≤ limits.maxRecordBytes ∧ utf8Ok record.payload = true then
      .found record rest
    else .fail

theorem lineNext_open (h : lf ∉ p) :
    lineNext limits p = if lineWaits limits.maxRecordBytes p then .more p else .fail := by
  have hdrop : p.dropWhile (· != lf) = [] := by
    simp only [dropWhile_eq_nil_iff, bne_iff_ne]
    exact fun x hx hlf => h (hlf ▸ hx)
  simp only [lineNext, hdrop]

theorem lineNext_line (h : lf ∉ line) (rest : Bytes) :
    lineNext limits (line ++ lf :: rest) =
      if (lineRecord line).payload.length ≤ limits.maxRecordBytes ∧
          utf8Ok (lineRecord line).payload = true then .found (lineRecord line) rest
      else .fail := by
  have hline : ∀ x ∈ line, (x != lf) = true := by
    simp only [bne_iff_ne]
    exact fun x hx hlf => h (hlf ▸ hx)
  have hdrop : (line ++ lf :: rest).dropWhile (· != lf) = lf :: rest := by
    rw [dropWhile_append_of_pos hline, dropWhile_cons_of_neg (by simp)]
  have htake : (line ++ lf :: rest).takeWhile (· != lf) = line := by
    rw [takeWhile_append_of_pos hline, takeWhile_cons_of_neg (by simp), append_nil]
  simp only [lineNext, hdrop, htake]

theorem lineNext_more (h : lineNext limits p = .more rest) :
    rest = p ∧ lf ∉ p ∧ lineWaits limits.maxRecordBytes p := by
  obtain hopen | ⟨line, tail, hline, rfl⟩ := line_cases p
  · rw [lineNext_open hopen] at h
    split at h
    · next hwaits =>
      cases h
      exact ⟨rfl, hopen, hwaits⟩
    · cases h
  · rw [lineNext_line hline] at h
    split at h <;> cases h

theorem lineNext_found (h : lineNext limits p = .found r rest) :
    ∃ line, lf ∉ line ∧ p = line ++ lf :: rest ∧ r = lineRecord line ∧
      (lineRecord line).payload.length ≤ limits.maxRecordBytes ∧
      utf8Ok (lineRecord line).payload = true := by
  obtain hopen | ⟨line, tail, hline, rfl⟩ := line_cases p
  · rw [lineNext_open hopen] at h
    split at h <;> cases h
  · rw [lineNext_line hline] at h
    split at h
    · next hok =>
      cases h
      exact ⟨line, hline, rfl, rfl, hok⟩
    · cases h

/-- The splitter of the line formats. -/
def lineSplitter (limits : DecoderLimits) : Splitter UInt8 Record where
  next := lineNext limits
  found_append {p r rest} h q := by
    obtain ⟨line, hline, rfl, rfl, hok⟩ := lineNext_found h
    rw [append_assoc, cons_append, lineNext_line hline, if_pos hok]
  found_lt {p r rest} h := by
    obtain ⟨line, -, rfl, -⟩ := lineNext_found h
    simp only [length_append, length_cons]
    omega
  more_append {p rest} h q := by rw [(lineNext_more h).1]
  fail_append {p} h q := by
    obtain hopen | ⟨line, rest', hline, rfl⟩ := line_cases p
    · rw [lineNext_open hopen] at h
      split at h
      · cases h
      next hlong =>
      obtain hq | ⟨line, rest, hline, rfl⟩ := line_cases q
      · rw [lineNext_open (by simp [hopen, hq]), if_neg (not_lineWaits_append hlong)]
      · rw [← append_assoc, lineNext_line (by simp [hopen, hline]), if_neg]
        exact fun hok => absurd hok.1 (not_le.mpr (lineRecord_too_long hlong line))
    · rw [lineNext_line hline] at h
      split at h
      · cases h
      · next hbad => rw [append_assoc, cons_append, lineNext_line hline, if_neg hbad]

end Lines

/-! ### CSV -/

/-- How the scan of a CSV record ends: at an error, at the end of the buffer, or at a line end
behind the payload. -/
inductive CsvScan where
  | bad
  | open (state : CsvState) (fields : Nat)
  | ends (payload rest : Bytes)

/-- The same scan behind bytes already seen. -/
def CsvScan.after (seen : Bytes) : CsvScan → CsvScan
  | .ends payload rest => .ends (seen ++ payload) rest
  | scan => scan

def csvScan (maxCsvFields : Nat) : CsvState → Nat → Bytes → CsvScan
  | state, fields, [] => .open state fields
  | state, fields, byte :: bytes =>
    match state.scan maxCsvFields fields byte with
    | .error _ => .bad
    | .ok .boundary => .ends [] (byte :: bytes)
    | .ok (.advance state' fields') => (csvScan maxCsvFields state' fields' bytes).after [byte]

/-- Drop empty lines.  A `\r` at the end of the buffer may be half of a line end. -/
def skipEmpty : Bytes → Bytes
  | [] => []
  | [byte] => if byte = lf then [] else [byte]
  | byte :: next :: rest =>
    if byte = lf then skipEmpty (next :: rest)
    else if byte = cr then
      if next = lf then skipEmpty rest else skipEmpty (next :: rest)
    else byte :: next :: rest

/-- The line end at the front of a buffer and what is behind it. -/
def csvSeparator : Bytes → Option (Bytes × Bytes)
  | [] => none
  | byte :: bytes =>
    if byte = lf then some ([byte], bytes)
    else match bytes with
      | [] => none
      | next :: rest => if next = lf then some ([byte, next], rest) else some ([byte], next :: rest)

section Csv

variable {limits : DecoderLimits} {maxCsvFields fields : Nat} {state : CsvState}
  {p q payload rest separator : Bytes}

@[simp] theorem CsvScan.after_after (a b : Bytes) (scan : CsvScan) :
    (scan.after b).after a = scan.after (a ++ b) := by
  cases scan <;> simp [CsvScan.after]

theorem CsvState.scan_boundary {byte : UInt8}
    (h : state.scan maxCsvFields fields byte = .ok .boundary) : byte = lf ∨ byte = cr := by
  cases state <;> simp only [CsvState.scan, incrementCsvFields] at h <;> repeat' split at h
  all_goals first | assumption | cases h

/-- The scan of two buffers is the scan of the first, and of the second where the first is open. -/
theorem csvScan_append (maxCsvFields : Nat) (state : CsvState) (fields : Nat) (p q : Bytes) :
    csvScan maxCsvFields state fields (p ++ q) =
    match csvScan maxCsvFields state fields p with
    | .bad => .bad
    | .open state fields => (csvScan maxCsvFields state fields q).after p
    | .ends payload rest => .ends payload (rest ++ q) := by
  induction p generalizing state fields with
  | nil =>
    simp only [csvScan, nil_append]
    cases csvScan maxCsvFields state fields q <;> rfl
  | cons byte bytes ih =>
    rw [cons_append, csvScan, csvScan]
    cases state.scan maxCsvFields fields byte with
    | error => rfl
    | ok move =>
      cases move with
      | boundary => rfl
      | advance state' fields' =>
        simp only [ih]
        cases csvScan maxCsvFields state' fields' bytes with
        | bad => rfl
        | «open» _ _ => exact CsvScan.after_after ..
        | ends => rfl

@[simp] theorem CsvScan.after_eq_bad : scan.after seen = .bad ↔ scan = .bad := by
  cases scan <;> simp [after]

@[simp] theorem CsvScan.after_eq_open :
    scan.after seen = .open state fields ↔ scan = .open state fields := by
  cases scan <;> simp [after]

@[simp] theorem CsvScan.after_eq_ends :
    scan.after seen = .ends payload rest ↔
      ∃ payload', seen ++ payload' = payload ∧ scan = .ends payload' rest := by
  cases scan <;> simp [after]

/-- A scan that ends has been open up to there. -/
theorem csvScan_ends_open (h : csvScan maxCsvFields state fields p = .ends payload rest) :
    ∃ state' fields' byte bytes, p = payload ++ rest ∧
      csvScan maxCsvFields state fields payload = .open state' fields' ∧
      rest = byte :: bytes ∧ state'.scan maxCsvFields fields' byte = .ok .boundary := by
  induction p generalizing state fields payload with
  | nil => cases h
  | cons byte bytes ih =>
    rw [csvScan] at h
    cases hm : state.scan maxCsvFields fields byte with
    | error => simp [hm] at h
    | ok move =>
      cases move with
      | boundary =>
        simp only [hm, CsvScan.ends.injEq] at h
        obtain ⟨rfl, rfl⟩ := h
        exact ⟨state, fields, byte, bytes, rfl, rfl, rfl, hm⟩
      | advance =>
        simp only [hm, CsvScan.after_eq_ends] at h
        obtain ⟨payload, rfl, hb⟩ := h
        obtain ⟨st, n, b, bs, rfl, hopen, hrest, hbound⟩ := ih hb
        exact ⟨st, n, b, bs, rfl, by simp [csvScan, hm, hopen], hrest, hbound⟩

theorem csvScan_ends (h : csvScan maxCsvFields state fields p = .ends payload rest) :
    p = payload ++ rest ∧ ∃ byte bytes, rest = byte :: bytes ∧ (byte = lf ∨ byte = cr) := by
  obtain ⟨_, _, byte, bytes, hp, -, hrest, hbound⟩ := csvScan_ends_open h
  exact ⟨hp, byte, bytes, hrest, CsvState.scan_boundary hbound⟩

theorem csvSeparator_append (h : csvSeparator p = some (separator, rest)) :
    csvSeparator (p ++ q) = some (separator, rest ++ q) := by
  match p with
  | [] => cases h
  | byte :: bytes =>
    simp only [csvSeparator, cons_append] at h ⊢
    split at h
    · next hlf =>
      cases h
      rw [if_pos hlf]
    · next hlf =>
      rw [if_neg hlf]
      match bytes with
      | [] => cases h
      | next :: bytes =>
        simp only [cons_append] at h ⊢
        split at h
        · next hnext =>
          cases h
          rw [if_pos hnext]
        · next hnext =>
          cases h
          rw [if_neg hnext]
          rfl

theorem csvSeparator_eq (h : csvSeparator p = some (separator, rest)) :
    p = separator ++ rest ∧ separator ≠ [] := by
  match p with
  | [] => cases h
  | [byte] =>
    simp only [csvSeparator] at h
    split at h <;> cases h
    exact ⟨rfl, by simp⟩
  | byte :: next :: bytes =>
    simp only [csvSeparator] at h
    split at h
    · cases h
      exact ⟨rfl, by simp⟩
    · split at h <;> cases h <;> exact ⟨rfl, by simp⟩

theorem csvSeparator_none (h : csvSeparator p = none) (hp : p ≠ []) :
    ∃ byte, p = [byte] ∧ byte ≠ lf := by
  match p with
  | [] => exact absurd rfl hp
  | [byte] =>
    simp only [csvSeparator] at h
    split at h
    · cases h
    · next hlf => exact ⟨byte, rfl, hlf⟩
  | byte :: next :: bytes =>
    simp only [csvSeparator] at h
    split at h
    · cases h
    · split at h <;> cases h

/-- A buffer that starts with a record. -/
def StartsRecord (p : Bytes) : Prop := ∃ byte bytes, p = byte :: bytes ∧ byte ≠ lf ∧ byte ≠ cr

theorem StartsRecord.append (h : StartsRecord p) (q : Bytes) : StartsRecord (p ++ q) := by
  obtain ⟨byte, bytes, rfl, hb⟩ := h
  exact ⟨byte, bytes ++ q, rfl, hb⟩

theorem StartsRecord.skipEmpty (h : StartsRecord p) : skipEmpty p = p := by
  obtain ⟨byte, bytes, rfl, hlf, hcr⟩ := h
  match bytes with
  | [] => simp [Records.skipEmpty, hlf]
  | next :: rest => simp [Records.skipEmpty, hlf, hcr]

/-- Behind the empty lines there is nothing, half of a line end, or a record. -/
theorem skipEmpty_cases (p : Bytes) :
    skipEmpty p = [] ∨ skipEmpty p = [cr] ∨ StartsRecord (skipEmpty p) := by
  fun_induction skipEmpty p with
  | case1 => exact .inl rfl
  | case2 => exact .inl rfl
  | case3 byte hlf =>
    by_cases hcr : byte = cr
    · exact .inr (.inl (by rw [hcr]))
    · exact .inr (.inr ⟨byte, [], rfl, hlf, hcr⟩)
  | case4 next rest ih => exact ih
  | case5 rest _ ih => exact ih
  | case6 next rest _ _ ih => exact ih
  | case7 byte next rest hlf hcr => exact .inr (.inr ⟨byte, next :: rest, rfl, hlf, hcr⟩)

theorem skipEmpty_append (p q : Bytes) : skipEmpty (p ++ q) = skipEmpty (skipEmpty p ++ q) := by
  fun_induction skipEmpty p with
  | case1 => rfl
  | case2 =>
    match q with
    | [] => simp [skipEmpty]
    | next :: rest => simp [skipEmpty]
  | case3 => rfl
  | case4 next rest ih =>
    rw [← ih]
    simp [skipEmpty]
  | case5 rest hlf ih =>
    rw [← ih]
    simp [skipEmpty, hlf]
  | case6 next rest hlf hnext ih =>
    rw [← ih]
    simp [skipEmpty, hlf, hnext]
  | case7 => rfl

theorem skipEmpty_length (p : Bytes) : (skipEmpty p).length ≤ p.length := by
  fun_induction skipEmpty p <;> simp_all <;> omega

variable [Parsers]

/-- The parser takes the payload for one record. -/
def csvOk (limits : DecoderLimits) (payload : Bytes) : Bool :=
  let read := Parsers.csv (payload ++ [lf]) limits.maxCsvFields
  read.record && read.consumed == payload.length + 1 && read.fields ≤ limits.maxCsvFields

/-- The payload is a record that may be emitted. -/
def csvValid (limits : DecoderLimits) (payload : Bytes) : Prop :=
  payload.length ≤ limits.maxRecordBytes ∧ csvOk limits payload = true ∧ utf8Ok payload = true

instance (limits : DecoderLimits) (payload : Bytes) : Decidable (csvValid limits payload) := by
  unfold csvValid
  infer_instance

def csvRecord (limits : DecoderLimits) (p : Bytes) : Split UInt8 Record :=
  match csvScan limits.maxCsvFields .fieldStart 1 p with
  | .bad => .fail
  | .open _ _ => if p.length ≤ limits.maxRecordBytes then .more p else .fail
  | .ends payload rest =>
    match csvSeparator rest with
    | none =>
      if payload.length ≤ limits.maxRecordBytes then .more p else .fail
    | some (separator, rest) =>
      if csvValid limits payload then .found ⟨payload, separator⟩ rest else .fail

def csvNext (limits : DecoderLimits) (p : Bytes) : Split UInt8 Record :=
  csvRecord limits (skipEmpty p)

theorem csvRecord_found (h : csvRecord limits p = .found r rest) :
    ∃ tail, csvScan limits.maxCsvFields .fieldStart 1 p = .ends r.payload tail ∧
      csvSeparator tail = some (r.separator, rest) ∧ csvValid limits r.payload := by
  simp only [csvRecord] at h
  split at h
  · cases h
  · split at h <;> cases h
  next tail hscan =>
  split at h
  · split at h <;> cases h
  next hsep =>
  split at h
  · next hvalid =>
    cases h
    exact ⟨tail, hscan, hsep, hvalid⟩
  · cases h

/-- The record at the front is there whatever follows. -/
theorem csvRecord_found_append (h : csvRecord limits p = .found r rest) {q : Bytes} :
    csvRecord limits (p ++ q) = .found r (rest ++ q) := by
  obtain ⟨tail, hscan, hsep, hvalid⟩ := csvRecord_found h
  simp only [csvRecord, csvScan_append, hscan, csvSeparator_append hsep, if_pos hvalid]

theorem csvRecord_found_lt (h : csvRecord limits p = .found r rest) : rest.length < p.length := by
  obtain ⟨tail, hscan, hsep, -⟩ := csvRecord_found h
  obtain ⟨rfl, -⟩ := csvScan_ends hscan
  obtain ⟨rfl, hne⟩ := csvSeparator_eq hsep
  have := length_pos_of_ne_nil hne
  simp only [length_append]
  omega

theorem csvRecord_more (h : csvRecord limits p = .more rest) : rest = p := by
  simp only [csvRecord] at h
  split at h
  · cases h
  · split at h <;> cases h
    rfl
  · split at h
    · split at h <;> cases h
      rfl
    · split at h <;> cases h

/-- A payload beyond the limit fails, whatever is behind it. -/
theorem csvRecord_too_long (hs : csvScan limits.maxCsvFields .fieldStart 1 p = .ends payload rest)
    (hlong : limits.maxRecordBytes < payload.length) : csvRecord limits p = .fail := by
  simp only [csvRecord, hs]
  split
  · rw [if_neg (not_le.mpr hlong)]
  · rw [if_neg fun hok => absurd hok.1 (not_le.mpr hlong)]

theorem csvRecord_fail_append (h : csvRecord limits p = .fail) {q : Bytes} :
    csvRecord limits (p ++ q) = .fail := by
  have happ := csvScan_append limits.maxCsvFields .fieldStart 1 p q
  cases hs : csvScan limits.maxCsvFields .fieldStart 1 p with
  | bad =>
    rw [hs] at happ
    simp only [csvRecord, happ]
  | «open» state fields =>
    -- what has been scanned is beyond the limit
    rw [hs] at happ
    simp only [csvRecord, hs] at h
    split at h
    · cases h
    next hlong =>
    rw [not_le] at hlong
    cases hq : csvScan limits.maxCsvFields state fields q with
    | bad => simp only [csvRecord, happ, hq, CsvScan.after]
    | «open» _ _ =>
      simp only [csvRecord, happ, hq, CsvScan.after, length_append]
      rw [if_neg (by omega)]
    | ends =>
      simp only [hq, CsvScan.after] at happ
      refine csvRecord_too_long happ ?_
      rw [length_append]
      omega
  | ends payload =>
    rw [hs] at happ
    by_cases hlong : limits.maxRecordBytes < payload.length
    · exact csvRecord_too_long happ hlong
    · simp only [csvRecord, hs] at h
      split at h
      · rw [if_pos (not_lt.mp hlong)] at h
        cases h
      · next hsep =>
        split at h
        · cases h
        · next hbad => simp only [csvRecord, happ, csvSeparator_append (q := q) hsep, if_neg hbad]

theorem csvNext_of_startsRecord (h : StartsRecord (skipEmpty p)) (q : Bytes) :
    csvNext limits (p ++ q) = csvRecord limits (skipEmpty p ++ q) := by
  rw [csvNext, skipEmpty_append, (h.append q).skipEmpty]

/-- Nothing, and half of a line end, need more. -/
theorem startsRecord_of_csvNext {found : Split UInt8 Record} (h : csvNext limits p = found)
    (hmore : found ≠ .more (skipEmpty p)) : StartsRecord (skipEmpty p) := by
  refine (or_assoc.mpr (skipEmpty_cases p)).resolve_left fun hp => hmore ?_
  rw [← h, csvNext]
  rcases hp with hp | hp <;> rw [hp] <;> rfl

/-- The splitter of CSV. -/
def csvSplitter (limits : DecoderLimits) : Splitter UInt8 Record where
  next := csvNext limits
  found_append {p r rest} h q := by
    rw [csvNext_of_startsRecord (startsRecord_of_csvNext h (by simp))]
    exact csvRecord_found_append h
  found_lt {p r rest} h := by
    have hlt := csvRecord_found_lt h
    have hle := skipEmpty_length p
    omega
  more_append {p rest} h q := by
    rw [csvRecord_more h, csvNext, csvNext, skipEmpty_append]
  fail_append {p} h q := by
    rw [csvNext_of_startsRecord (startsRecord_of_csvNext h (by simp))]
    exact csvRecord_fail_append h

end Csv

/-! ### Whole streams -/

variable [Parsers]

def jsonNext (limits : DecoderLimits) (p : Bytes) : Split UInt8 Record :=
  if p.length ≤ limits.maxJsonDocumentBytes then .more p else .fail

/-- The splitter of JSON, which finds no record before the end of the stream. -/
def jsonSplitter (limits : DecoderLimits) : Splitter UInt8 Record where
  next := jsonNext limits
  found_append {p r rest} h := by
    simp only [jsonNext] at h
    split at h <;> cases h
  found_lt {p r rest} h := by
    simp only [jsonNext] at h
    split at h <;> cases h
  more_append {p rest} h q := by
    simp only [jsonNext] at h
    split at h <;> cases h
    rfl
  fail_append {p} h q := by
    simp only [jsonNext] at h ⊢
    split at h
    · cases h
    · rw [if_neg]
      rw [length_append]
      omega

def splitter (format : Format) (limits : DecoderLimits) : Splitter UInt8 Record :=
  match format with
  | .text | .jsonl | .tsv => lineSplitter limits
  | .csv => csvSplitter limits
  | .json => jsonSplitter limits

/-- The rest of a frame is within the limit. -/
def fits (format : Format) (limits : DecoderLimits) (rest : Bytes) : Bool :=
  match format with
  | .json => rest.length ≤ limits.maxJsonDocumentBytes
  | _ => rest.length ≤ limits.maxRecordBytes

/-- The records in the rest of a stream that ends. -/
def lastRecords (format : Format) (limits : DecoderLimits) (rest : Bytes) (inputSeen : Bool) :
    Option (List Record) :=
  match format with
  | .text | .jsonl | .tsv =>
    if rest = [] ∧ inputSeen = true then some []
    else if utf8Ok rest then some [⟨rest, []⟩] else none
  | .json =>
    if rest = [] then some []
    else if utf8Ok rest = true ∧ (Parsers.json rest).isOk = true then some [⟨rest, []⟩] else none
  | .csv =>
    if rest = [] ∨ rest = [cr] then some []
    else match csvScan limits.maxCsvFields .fieldStart 1 rest with
      | .bad => none
      | .open state _ =>
        if state ≠ .quoted ∧ csvOk limits rest = true ∧ utf8Ok rest = true then
          some [⟨rest, []⟩]
        else none
      | .ends payload _ =>
        if csvValid limits payload then some [⟨payload, [cr]⟩] else none

/-- **The records of a stream.**  A CSV stream must have one. -/
def decode (format : Format) (limits : DecoderLimits) (stream : Bytes) : Option (List Record) := do
  let (records, rest) ← (splitter format limits).drain stream
  guard (fits format limits rest)
  let last ← lastRecords format limits rest (!stream.isEmpty)
  guard (format ≠ .csv ∨ records ++ last ≠ [])
  return records ++ last

end S4.Records
