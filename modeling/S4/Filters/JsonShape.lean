import S4.Filters.Pieces
import S4.Lib.Json
import S4.Records.Segments

/-!
# Filters — JSON shape

When redaction keeps a JSON text valid.  A marker is harmless inside a string, and nowhere else.  A
token starts or ends elsewhere in three ways: it is a number outside of strings, a number that
starts in a `\u` escape, or an address that ends with the backslash that escapes a quote.

The last one ends the string too early.  From there on the text is read with strings and structure
exchanged, until it fails at the latest at the end (`not_lexes_exchanged`).
-/

namespace S4.Filters

open Lib Lib.Json Piece Option
open Records (Bytes Record Parsers DecoderLimits IsDocument ReadsTexts Exchanged readerParsers)

variable {x : Bytes} {span : Span} {ps : List Piece} {mode : Mode} {pos : Nat} {b : UInt8}
  {inner : StringMode}

/-- The position is in a string, and not in an escape. -/
def InString (x : Bytes) (i : Nat) : Prop := modeAfter (x.take i) = some (.str .plain)

instance (x : Bytes) (i : Nat) : Decidable (InString x i) := inferInstanceAs (Decidable (_ = _))

/-! ### Tokens and markers -/

/-- The bytes of tokens and addresses, as the lexer takes them. -/
theorem lexed_byte_spec : ∀ b, (isTokenByte b = true → isSafe b = true) ∧
    (isWordByte b = true → b ≠ quote) ∧ (isWordByte b = false →
      b ≠ 0x75 ∧ b ≠ backslash ∧ (isEscapable b = true → b = quote) ∧ hexValue? b = none) :=
  forall_byte (by decide +kernel)

theorem not_quote_of_safe (h : isSafe b = true) : b ≠ quote := by
  simp only [isSafe, Bool.and_eq_true, bne_iff_ne] at h
  exact h.1.1

theorem le_of_safe (h : isSafe b = true) : 0x20 ≤ b := by
  simp only [isSafe, Bool.and_eq_true, decide_eq_true_eq] at h
  exact h.2

theorem isStray_atSign : isStray atSign = true := rfl

theorem IsEmail.atSign_mem {s e : Nat} (h : IsEmail x s e) : atSign ∈ slice x s e := by
  have hvalid := h.valid
  simp only [isValidEmail, Bool.and_eq_true, List.contains_iff_mem] at hvalid
  exact hvalid.1.1.2

/-- A token is an address, or bytes that stand for themselves. -/
theorem text_spec (h : token span ∈ pieces x) :
    quote ∉ text x (.token span) ∧
      (IsEmail x span.start span.stop ∨ ∀ b ∈ text x (.token span), isSafe b = true) := by
  rcases token_cases h with ⟨hemail, -⟩ | ⟨kind, hnumber, -⟩
  · exact ⟨fun hmem => (lexed_byte_spec _).2.1 (all_slice hemail.run.all _ hmem) rfl, .inl hemail⟩
  · have hsafe : ∀ b ∈ text x (.token span), isSafe b = true := fun b hb =>
      (lexed_byte_spec b).1 (all_slice hnumber.trimmed.all b hb)
    exact ⟨fun hmem => not_quote_of_safe (hsafe _ hmem) rfl, .inr hsafe⟩

theorem marker_json (kind : PiiKind) :
    (∀ b ∈ kind.marker, isSafe b = true) ∧ kind.marker.head? = some 0x5b ∧
      0x5f ∈ kind.marker ∧ isStray 0x5f = true := by
  cases kind <;> decide +kernel

/-- The first byte of a marker ends no escape. -/
theorem bracket_step (h : inner ≠ .plain) : (Mode.str inner).step 0x5b = none := by
  cases inner with
  | plain => exact absurd rfl h
  | escape low => cases low <;> rfl
  | hex => rfl
  | pair => rfl

theorem lexPart_marker_plain (h : token span ∈ pieces x) :
    lexPart (.str .plain) (written (.token span)) = some (.str .plain, []) := by
  obtain ⟨kind, hmarker⟩ := exists_marker h
  rw [written, hmarker]
  exact lexPart_safe (marker_json kind).1

theorem lexPart_marker_none (h : token span ∈ pieces x) (hm : mode ≠ .str .plain) :
    lexPart mode (written (.token span)) = none := by
  obtain ⟨kind, hmarker⟩ := exists_marker h
  obtain ⟨hsafe, hhead, hmem, hstray⟩ := marker_json kind
  rw [written, hmarker]
  cases mode with
  | str =>
    obtain ⟨w, hw⟩ := List.head?_eq_some_iff.mp hhead
    rw [hw, lexPart_cons, bracket_step fun hinner => hm (by rw [hinner])]
    rfl
  | out | bare seen =>
    exact lexPart_stray rfl (fun hq => not_quote_of_safe (hsafe _ hq) rfl) hmem hstray

/-! ### A string that is closed too early -/

/-- **With strings and structure exchanged no text is read to its end.** -/
theorem not_lexes_exchanged (hps : ∀ p ∈ ps, p ∈ pieces x) :
    (Lexes (.str .plain) (ps.flatMap (text x)) →
      ∀ mode, mode.isOut = true → ¬ Lexes mode (ps.flatMap written)) ∧
    (∀ mode, mode.isOut = true → Lexes mode (ps.flatMap (text x)) →
      ¬ Lexes (.str .plain) (ps.flatMap written)) := by
  induction ps with
  | nil => exact ⟨fun h => absurd h not_lexes_string_nil, fun _ _ _ => not_lexes_string_nil⟩
  | cons p ps ih =>
    obtain ⟨ihString, ihOut⟩ := ih fun p' hp' => hps p' (List.mem_cons_of_mem p hp')
    rw [List.flatMap_cons, List.flatMap_cons]
    cases p with
    | byte =>
      rw [text, written, List.singleton_append, List.singleton_append]
      constructor
      · intro htext mode hm hwritten
        obtain ⟨r, hr, htext⟩ := lexes_cons.mp htext
        obtain ⟨r', hr', hwritten⟩ := lexes_cons.mp hwritten
        rcases step_exchange hm hr hr' with ⟨hin, hout⟩ | ⟨hout, hin⟩
        · exact ihString (hin ▸ htext) _ hout hwritten
        · exact ihOut .out rfl (hout ▸ htext) (hin ▸ hwritten)
      · intro mode hm htext hwritten
        obtain ⟨r, hr, htext⟩ := lexes_cons.mp htext
        obtain ⟨r', hr', hwritten⟩ := lexes_cons.mp hwritten
        rcases step_exchange hm hr' hr with ⟨hin, hout⟩ | ⟨hout, hin⟩
        · exact ihOut _ hout htext (hin ▸ hwritten)
        · exact ihString (hin ▸ htext) .out rfl (hout ▸ hwritten)
    | token =>
      have hmem := hps _ List.mem_cons_self
      constructor
      · -- a marker outside of strings
        intro _ mode hm hwritten
        obtain ⟨r, hr, -⟩ := lexes_append.mp hwritten
        rw [lexPart_marker_none hmem (by rintro rfl; cases hm)] at hr
        cases hr
      · intro mode hm htext hwritten
        obtain ⟨r, hr, htext⟩ := lexes_append.mp htext
        obtain ⟨r', hr', hwritten⟩ := lexes_append.mp hwritten
        rw [lexPart_marker_plain hmem] at hr'
        cases hr'
        exact ihOut _ (lexPart_isOut hm (text_spec hmem).1 hr) htext hwritten

/-! ### All markers in strings -/

theorem modeAfter_byte (hmode : modeAfter (x.take pos) = some mode)
    (hb : x[pos]? = some b) : modeAfter (x.take (pos + 1)) = (mode.step b).map Prod.fst := by
  rw [List.take_add_one, hb, toList_some, modeAfter_append hmode, lexPart_cons]
  cases mode.step b <;> rfl

theorem modeAfter_token (hmode : modeAfter (x.take pos) = some mode)
    (h : tokenFrom x pos = some span) :
    modeAfter (x.take span.stop) = (lexPart mode (text x (.token span))).map Prod.fst := by
  obtain ⟨rfl, hlt, -⟩ := tokenFrom_spec h
  rw [text, ← modeAfter_append hmode, take_append_slice x (Nat.le_of_lt hlt)]

/-- Where every token is in a string, redaction keeps the lexemes. -/
theorem lexFrom_written (h : Reads x pos ps) (hps : ∀ p ∈ ps, p ∈ pieces x)
    (hmode : modeAfter (x.take pos) = some mode)
    (hin : ∀ span, token span ∈ ps → InString x span.start ∧ InString x span.stop) :
    lexFrom mode (ps.flatMap written) = lexFrom mode (ps.flatMap (text x)) := by
  induction h generalizing mode with
  | done => rfl
  | @byte pos b ps hb hnone hrest ih =>
    rw [List.flatMap_cons, List.flatMap_cons, text, written, List.singleton_append,
      List.singleton_append, lexFrom_cons, lexFrom_cons]
    have hnext := modeAfter_byte hmode hb
    cases hstep : mode.step b with
    | none => rfl
    | some =>
      rw [hstep] at hnext
      rw [bind_some, bind_some, ih (fun p hp => hps p (List.mem_cons_of_mem _ hp))
        hnext fun span hspan => hin span (List.mem_cons_of_mem _ hspan)]
  | @token pos span ps hsome hrest ih =>
    have hmem := hps _ List.mem_cons_self
    obtain ⟨rfl, -, -⟩ := tokenFrom_spec hsome
    obtain ⟨hstart, hstop⟩ := hin span List.mem_cons_self
    obtain rfl : mode = .str .plain := some.inj (hmode.symm.trans hstart)
    obtain ⟨⟨mode, ls⟩, hr, rfl⟩ :=
      map_eq_some_iff.mp ((modeAfter_token hmode hsome).symm.trans hstop)
    obtain ⟨-, rfl⟩ := lexPart_inside (text_spec hmem).1 hr
    rw [List.flatMap_cons, List.flatMap_cons, lexFrom_append, lexFrom_append,
      lexPart_marker_plain hmem, hr, bind_some, bind_some,
      ih (fun p hp => hps p (List.mem_cons_of_mem _ hp)) hstop
        fun span hspan => hin span (List.mem_cons_of_mem _ hspan)]

/-- The only escape that the byte behind an address continues is that of a quote. -/
theorem boundary_step {r : Mode × List Lexeme}
    (hb : isWordByte b = false) (hinner : inner ≠ .plain) (h : (Mode.str inner).step b = some r) :
    b = quote ∧ r.1 = .str .plain := by
  obtain ⟨hu, hback, hescape, hhex⟩ := (lexed_byte_spec b).2.2 hb
  rw [Mode.step, if_neg fun hend => hinner hend.1] at h
  obtain ⟨inner', hstep, rfl⟩ := map_eq_some_iff.mp h
  cases inner with
  | plain => exact absurd rfl hinner
  | escape =>
    rw [StringMode.step, if_neg (by simpa using hu)] at hstep
    split at hstep
    · next hesc =>
      cases hstep
      exact ⟨hescape (Bool.and_eq_true_iff.mp hesc).2, rfl⟩
    · cases hstep
  | hex =>
    rw [StringMode.step, hhex] at hstep
    cases hstep
  | pair =>
    rw [StringMode.step, if_neg (by simpa using hback)] at hstep
    cases hstep

/-- An address does not end in an escape where the redacted text is read to its end. -/
theorem address_end (h : Reads x span.stop ps) (hps : ∀ p ∈ ps, p ∈ pieces x)
    (hemail : IsEmail x span.start span.stop) (htext : Lexes (.str inner) (ps.flatMap (text x)))
    (hwritten : Lexes (.str .plain) (ps.flatMap written)) : inner = .plain := by
  by_contra hinner
  have hright := hemail.run.right
  cases ps with
  | nil => exact not_lexes_string_nil htext
  | cons p =>
    cases p with
    | token =>
      rw [(tokenFrom_word h.token_inv.1).1] at hright
      cases hright
    | byte =>
      rw [holdsAt_of_getElem h.byte_inv.1] at hright
      rw [List.flatMap_cons, text, List.singleton_append] at htext
      rw [List.flatMap_cons, written, List.singleton_append] at hwritten
      obtain ⟨r, hr, hrest⟩ := lexes_cons.mp htext
      obtain ⟨r', hr', hrest'⟩ := lexes_cons.mp hwritten
      obtain ⟨rfl, hplain⟩ := boundary_step hright hinner hr
      rw [hplain] at hrest
      cases hr'
      exact (not_lexes_exchanged fun p' hp' => hps p' (List.mem_cons_of_mem _ hp')).1 hrest .out
        rfl hrest'

/-- Where a redacted text is read to its end, every token is in a string. -/
theorem inString_of_lexes (h : Reads x pos ps) (hps : ∀ p ∈ ps, p ∈ pieces x)
    (hmode : modeAfter (x.take pos) = some mode) (htext : Lexes mode (ps.flatMap (text x)))
    (hwritten : Lexes mode (ps.flatMap written)) (span : Span) (hspan : token span ∈ ps) :
    InString x span.start ∧ InString x span.stop := by
  induction h generalizing mode with
  | done => cases hspan
  | @byte pos b ps hb hnone hrest ih =>
    rw [List.flatMap_cons, text, List.singleton_append] at htext
    rw [List.flatMap_cons, written, List.singleton_append] at hwritten
    obtain ⟨r, hr, htext⟩ := lexes_cons.mp htext
    obtain ⟨r', hr', hwritten⟩ := lexes_cons.mp hwritten
    obtain rfl : r = r' := some.inj (hr.symm.trans hr')
    have hnext := modeAfter_byte hmode hb
    rw [hr] at hnext
    exact ih (fun p hp => hps p (List.mem_cons_of_mem _ hp)) hnext htext hwritten
      ((List.mem_cons.mp hspan).resolve_left (by rintro ⟨⟩))
  | @token pos span' ps hsome hrest ih =>
    have hmem := hps _ List.mem_cons_self
    have hps' := fun p hp => hps p (List.mem_cons_of_mem _ hp)
    obtain ⟨rfl, -, -⟩ := tokenFrom_spec hsome
    rw [List.flatMap_cons] at htext hwritten
    obtain ⟨⟨mode', ls⟩, hr, htext⟩ := lexes_append.mp htext
    obtain ⟨r', hr', hwritten⟩ := lexes_append.mp hwritten
    obtain rfl : mode = .str .plain := by
      by_contra hne
      rw [lexPart_marker_none hmem hne] at hr'
      cases hr'
    rw [lexPart_marker_plain hmem] at hr'
    cases hr'
    -- behind the token the text is in a string as well
    obtain rfl : mode' = .str .plain := by
      rcases text_spec hmem with ⟨hquote, hemail | hsafe⟩
      · obtain ⟨⟨inner, rfl⟩, -⟩ := lexPart_inside hquote hr
        rw [address_end hrest hps' hemail htext hwritten]
      · rw [lexPart_safe hsafe] at hr
        cases hr
        rfl
    have hstop : InString x span'.stop := by
      rw [InString, modeAfter_token hmode hsome, hr]
      rfl
    rcases List.mem_cons.mp hspan with heq | hspan
    · cases heq
      exact ⟨hmode, hstop⟩
    · exact ih hps' hstop htext hwritten hspan

/-- **When redaction keeps a JSON text valid**: every token that is written over starts and ends in
a string, outside of escapes. -/
theorem redactPii_isJson_iff (reader : Reader) (x : Bytes) (h : reader.isJson x = true) :
    reader.isJson (redactPii x) = true ↔
      ∀ span, token span ∈ pieces x → InString x span.start ∧ InString x span.stop := by
  have htext := pieces_text x
  constructor
  · intro hjson
    have hlexes := lexes_of_isJson h
    have hlexes' := lexes_of_isJson hjson
    rw [← htext] at hlexes
    rw [redactPii_eq_pieces] at hlexes'
    exact inString_of_lexes (reads_pieces x) (fun _ => id) rfl hlexes hlexes'
  · intro hin
    have hlex : lexFrom .out ((pieces x).flatMap written) =
        lexFrom .out ((pieces x).flatMap (text x)) :=
      lexFrom_written (reads_pieces x) (fun _ => id) rfl hin
    rw [htext, ← redactPii_eq_pieces] at hlex
    rwa [Reader.isJson, lex, hlex]

theorem exchanged_pieces (x : Bytes) :
    List.Forall₂ Exchanged ((pieces x).map (text x)) ((pieces x).map written) := by
  rw [List.forall₂_map_left_iff, List.forall₂_map_right_iff, List.forall₂_same]
  intro p hp
  cases p with
  | byte => exact .inl rfl
  | token =>
    obtain ⟨kind, hmarker⟩ := exists_marker hp
    rw [written, hmarker]
    exact .inr ⟨(marker_spec kind).1, fun b hb => le_of_safe ((marker_json kind).1 b hb)⟩

/-- **When redaction keeps a record of JSONL valid.**  The redacted line is a JSON text exactly if
every token that is written over starts and ends in a string, outside of escapes; the validator then
takes it if it is within the limit of a record. -/
theorem redactPii_validates_iff [Parsers] (reader : Reader) (hreads : ReadsTexts reader)
    (limits : DecoderLimits) (hpos : limits.Positive) (x separator : Bytes)
    (hline : Record.IsLine ⟨x, separator⟩) (hdoc : IsDocument reader x)
    (hutf8 : Records.utf8Ok (redactPii x) = true) :
    (IsDocument reader (redactPii x) ↔
      ∀ span, token span ∈ pieces x → InString x span.start ∧ InString x span.stop) ∧
    (Records.validateOutputRecords .jsonl [⟨redactPii x, separator⟩] limits = .ok () ↔
      (∀ span, token span ∈ pieces x → InString x span.start ∧ InString x span.stop) ∧
        Record.Within limits ⟨redactPii x, separator⟩) := by
  have hiff : IsDocument reader (redactPii x) ↔
      ∀ span, token span ∈ pieces x → InString x span.start ∧ InString x span.stop := by
    rw [IsDocument, and_iff_right hutf8, redactPii_isJson_iff reader x hdoc.2]
  refine ⟨hiff, ?_⟩
  rw [← hiff]
  exact hreads.validate_exchanged_iff hpos hline hdoc (exchanged_pieces x) (pieces_text x)
    (redactPii_eq_pieces x).symm

def wideLimits : DecoderLimits := ⟨256, 256, 256, 8⟩

/-- An address in a string; the marker is within the limit. -/
theorem address_in_string_validates : letI := readerParsers Records.anyNumber
    IsDocument Records.anyNumber (redactPii (ascii "[1,\"x@y.z\"]")) ∧
      Records.validateOutputRecords .jsonl [⟨redactPii (ascii "[1,\"x@y.z\"]"), [Records.lf]⟩]
        wideLimits = .ok () := by
  let _ := readerParsers Records.anyNumber
  have hin : ∀ span ∈ (pieces (ascii "[1,\"x@y.z\"]")).filterMap token?,
      InString (ascii "[1,\"x@y.z\"]") span.start ∧ InString (ascii "[1,\"x@y.z\"]") span.stop := by
    decide +kernel
  have h := redactPii_validates_iff Records.anyNumber (Records.readsJson_readerParsers _).json
    wideLimits ⟨by decide, by decide, by decide, by decide⟩ (ascii "[1,\"x@y.z\"]") [Records.lf]
    ⟨by decide +kernel, .inr (.inr ⟨rfl, by decide +kernel⟩)⟩ ⟨rfl, by decide +kernel⟩ rfl
  have htokens := fun span (hspan : token span ∈ _) =>
    hin span (List.mem_filterMap.mpr ⟨_, hspan, rfl⟩)
  exact ⟨h.1.mpr htokens, h.2.mpr ⟨htokens, by decide +kernel, by decide⟩⟩

/-- The record is one card number. -/
theorem card_value_invalid : letI := readerParsers Records.anyNumber
    IsDocument Records.anyNumber (ascii "4111111111111111") ∧
    ¬ IsDocument Records.anyNumber (redactPii (ascii "4111111111111111")) ∧
    Records.validateOutputRecords .jsonl [⟨ascii "4111111111111111", [Records.lf]⟩] wideLimits =
      .ok () ∧
    Records.validateOutputRecords .jsonl [⟨redactPii (ascii "4111111111111111"), [Records.lf]⟩]
      wideLimits = .error ⟨Records.Codes.decodeJsonl, "invalid JSON"⟩ := by
  let _ := readerParsers Records.anyNumber
  decide +kernel

end S4.Filters
