import S4.Filters.Pieces
import S4.Records.Framing

/-!
# Filters — CSV shape

Redaction keeps the fields of a CSV record.  A token has no quote, comma or line end, and neither
has a marker (`isPlain`).  From any state of the scan, all texts without them lead to the same state
(`csvFlags_plain`), so that the scan reads the redacted payload as it reads the payload.
-/

namespace S4.Filters

open Lib List
open Records (Bytes Parsers DecoderLimits RecordDecoder CsvState csvScan CsvScan)

variable {x w q : Bytes} {state state' : CsvState} {maxCsvFields fields : Nat} {flags : List Bool}
  {span : Span}

/-! ### Fields -/

/-- The fields of a payload as the scan reads them: for each whether it is quoted.  `none` if the
scan fails, finds a line end or ends in an open quote. -/
def csvFlags (maxCsvFields : Nat) : CsvState → (fields : Nat) → Bytes → Option (List Bool)
  | state, _,      [] => if state = .quoted then none else some [state = .quoteClosed]
  | state, fields, byte :: bytes =>
    match state.scan maxCsvFields fields byte with
    | .error _ => none
    | .ok .boundary => none
    | .ok (.advance state' fields') =>
      if fields' = fields then csvFlags maxCsvFields state' fields' bytes
      else (csvFlags maxCsvFields state' fields' bytes).map (decide (state = .quoteClosed) :: ·)

/-- The loop of the decoder takes the buffer as one payload with the given fields. -/
structure ReadsPayload [Parsers] (limits : DecoderLimits) (p : Bytes) (flags : List Bool) :
    Prop where
  nonempty : p ≠ []
  loop : ∃ d state, RecordDecoder.new .csv limits = .ok d ∧
    RecordDecoder.csvLoop true p.length { d with pending := p } =
      .ok (false, { d with
        pending := p, scanOffset := p.length, csvState := state, csvFields := flags.length }) ∧
    state ≠ .quoted
  flags : csvFlags limits.maxCsvFields .fieldStart 1 p = some flags

theorem scan_fields {byte : UInt8} {fields' : Nat}
    (h : state.scan maxCsvFields fields byte = .ok (.advance state' fields')) :
    fields' = fields ∨ fields' = fields + 1 := by
  cases state <;> simp only [CsvState.scan, Records.incrementCsvFields] at h <;> repeat' split at h
  all_goals cases h
  all_goals simp

/-- Every comma that ends a field is counted. -/
theorem csvScan_of_flags (h : csvFlags maxCsvFields state fields q = some flags) :
    ∃ state', csvScan maxCsvFields state fields q = .open state' (fields + flags.length - 1) ∧
      state' ≠ .quoted := by
  induction q generalizing state fields flags with
  | nil =>
    rw [csvFlags] at h
    split at h
    · cases h
    · next hne =>
      cases h
      exact ⟨state, rfl, hne⟩
  | cons byte bytes ih =>
    rw [csvFlags] at h
    rw [csvScan]
    cases hscan : state.scan maxCsvFields fields byte with
    | error => simp [hscan] at h
    | ok move =>
      cases move with
      | boundary => simp [hscan] at h
      | advance next =>
        simp only [hscan] at h
        split at h
        · next heq =>
          subst heq
          obtain ⟨state', hrest, hne⟩ := ih h
          exact ⟨state', by simp only [hrest, CsvScan.after], hne⟩
        · next hneq =>
          obtain ⟨flags', hflags, rfl⟩ := Option.map_eq_some_iff.mp h
          obtain ⟨state', hrest, hne⟩ := ih hflags
          obtain rfl := (scan_fields hscan).resolve_left hneq
          refine ⟨state', ?_, hne⟩
          simp only [hrest, CsvScan.after, length_cons]
          congr 1
          omega

/-! ### Plain bytes -/

/-- A byte that the scan takes for text of a field. -/
def isPlain (b : UInt8) : Bool :=
  b != Records.quote && b != Records.comma && b != Records.lf && b != Records.cr

/-- The state after such bytes; there are none behind a closing quote. -/
def onPlain : CsvState → Option CsvState
  | .fieldStart | .unquoted => some .unquoted
  | .quoted => some .quoted
  | .quoteClosed => none

theorem scan_plain (maxCsvFields fields : Nat) (state : CsvState) {b : UInt8}
    (hb : isPlain b = true) :
    (∃ e, onPlain state = none ∧ state.scan maxCsvFields fields b = .error e) ∨
      ∃ state', onPlain state = some state' ∧ onPlain state' = some state' ∧
        state.scan maxCsvFields fields b = .ok (.advance state' fields) := by
  simp only [isPlain, Bool.and_eq_true, bne_iff_ne] at hb
  obtain ⟨⟨⟨hquote, hcomma⟩, hlf⟩, hcr⟩ := hb
  cases state with
  | quoteClosed => exact .inl ⟨_, rfl, by simp [CsvState.scan, hquote, hcomma, hlf, hcr]; rfl⟩
  | fieldStart | unquoted | quoted =>
    exact .inr ⟨_, rfl, rfl, by simp [CsvState.scan, hquote, hcomma, hlf, hcr]⟩

/-- All plain texts are the same to the scan. -/
theorem csvFlags_plain (hne : w ≠ []) (hw : ∀ b ∈ w, isPlain b = true) :
    csvFlags maxCsvFields state fields (w ++ q) =
      (onPlain state).bind fun state' => csvFlags maxCsvFields state' fields q := by
  induction w generalizing state with
  | nil => exact absurd rfl hne
  | cons b w ih =>
    rw [cons_append, csvFlags]
    rcases scan_plain maxCsvFields fields state (hw b mem_cons_self) with
      ⟨e, hnone, hscan⟩ | ⟨state', hsome, hagain, hscan⟩
    · simp [hscan, hnone]
    · simp only [hscan, hsome, Option.bind_some, if_true]
      by_cases hnil : w = []
      · rw [hnil, nil_append]
      · rw [ih hnil fun b' hb' => hw b' (mem_cons_of_mem b hb'), hagain, Option.bind_some]

/-! ### Redaction -/

theorem isPlain_of_word : ∀ b, isWordByte b = true → isPlain b = true :=
  forall_byte (by decide +kernel)

theorem isPlain_of_token : ∀ b, isTokenByte b = true → isPlain b = true :=
  forall_byte (by decide +kernel)

theorem plain_text (h : Piece.token span ∈ pieces x) :
    Piece.text x (.token span) ≠ [] ∧ ∀ b ∈ Piece.text x (.token span), isPlain b = true := by
  obtain ⟨-, hlt, hle⟩ := tokenFrom_spec (token_mem_pieces h).2
  refine ⟨?_, ?_⟩
  · rw [Piece.text, ← length_pos_iff, length_slice _ hle]
    omega
  · intro b hb
    rcases token_cases h with ⟨hemail, -⟩ | ⟨kind, hnumber, -⟩
    · exact isPlain_of_word b (all_slice hemail.run.all b hb)
    · exact isPlain_of_token b (all_slice hnumber.trimmed.all b hb)

theorem plain_written (h : Piece.token span ∈ pieces x) :
    Piece.written (.token span) ≠ [] ∧ ∀ b ∈ Piece.written (.token span), isPlain b = true := by
  obtain ⟨kind, hmarker⟩ := exists_marker h
  obtain ⟨hne, hword, -⟩ := marker_spec kind
  rw [Piece.written, hmarker]
  exact ⟨hne, fun b hb => isPlain_of_word b (hword b hb)⟩

theorem csvFlags_pieces {ps : List Piece} (h : ∀ p ∈ ps, p ∈ pieces x) :
    csvFlags maxCsvFields state fields (ps.flatMap Piece.written) =
      csvFlags maxCsvFields state fields (ps.flatMap (Piece.text x)) := by
  induction ps generalizing state fields with
  | nil => rfl
  | cons p ps ih =>
    have ih' : ∀ {state fields}, csvFlags maxCsvFields state fields (ps.flatMap Piece.written) =
        csvFlags maxCsvFields state fields (ps.flatMap (Piece.text x)) :=
      ih fun p' hp' => h p' (mem_cons_of_mem p hp')
    rw [flatMap_cons, flatMap_cons]
    cases p with
    | byte =>
      rw [Piece.written, Piece.text, singleton_append, singleton_append, csvFlags, csvFlags]
      simp [ih']
    | token =>
      obtain ⟨hne, hplain⟩ := plain_written (h _ mem_cons_self)
      obtain ⟨hne', hplain'⟩ := plain_text (h _ mem_cons_self)
      rw [csvFlags_plain hne hplain, csvFlags_plain hne' hplain']
      simp [ih']

theorem csvFlags_redactPii (x : Bytes) :
    csvFlags maxCsvFields state fields (redactPii x) = csvFlags maxCsvFields state fields x := by
  have h : csvFlags maxCsvFields state fields ((pieces x).flatMap Piece.written) =
      csvFlags maxCsvFields state fields ((pieces x).flatMap (Piece.text x)) :=
    csvFlags_pieces fun _ => id
  rwa [← redactPii_eq_pieces, pieces_text] at h

theorem redactPii_ne_nil (h : x ≠ []) : redactPii x ≠ [] := by
  rw [redactPii_eq_pieces]
  cases hpieces : pieces x with
  | nil =>
    have htext := pieces_text x
    rw [hpieces] at htext
    exact absurd htext.symm h
  | cons p =>
    rw [flatMap_cons]
    refine append_ne_nil_of_left_ne_nil ?_ _
    cases p with
    | byte b => exact cons_ne_nil b []
    | token => exact (plain_written (hpieces ▸ mem_cons_self)).1

/-- **Redaction keeps the shape of a CSV record**: what the decoder takes for one payload it takes
for one payload redacted, with the same fields, quoted where they were quoted. -/
theorem redactPii_readsPayload [Parsers] {limits : DecoderLimits} {p : Bytes}
    (h : ReadsPayload limits p flags) : ReadsPayload limits (redactPii p) flags := by
  have hflags : csvFlags limits.maxCsvFields .fieldStart 1 (redactPii p) = some flags := by
    rw [csvFlags_redactPii, h.flags]
  obtain ⟨d, -, hnew, -⟩ := h.loop
  obtain ⟨state, hscan, hstate⟩ := csvScan_of_flags hflags
  refine ⟨redactPii_ne_nil h.nonempty, ⟨d, state, hnew, ?_, hstate⟩, hflags⟩
  rw [RecordDecoder.new] at hnew
  split at hnew
  · cases hnew
  · cases hnew
    rw [Nat.add_sub_cancel_left] at hscan
    exact RecordDecoder.csvLoop_open true ⟨Nat.zero_le _, rfl⟩ rfl (Nat.sub_le _ _) hscan

theorem quoted_address_readsPayload : letI := Records.lenientParsers
    ReadsPayload Records.smallLimits (ascii "a,\"x@y.z\"") [false, true] ∧
      ReadsPayload Records.smallLimits (redactPii (ascii "a,\"x@y.z\"")) [false, true] := by
  let _ := Records.lenientParsers
  have h : ReadsPayload Records.smallLimits (ascii "a,\"x@y.z\"") [false, true] :=
    ⟨by decide, ⟨_, .quoteClosed, rfl, by decide +kernel, by decide⟩, by decide +kernel⟩
  exact ⟨h, redactPii_readsPayload h⟩

end S4.Filters
