import S4.Filters.CsvShape
import S4.Filters.JsonShape

/-!
# Filters — Envelope encryption

The filter that writes a JSON object with the encrypted field in the place of each span
(`envelope-encrypt`).  The ciphers are external: a call of `encrypt` draws from the generator and
gives arbitrary bytes, or fails.

The object is a JSON value, so that it can stand for a value only.  Inside a string its quotes end
the string, and in a CSV field they are an error.  A record stays valid exactly when each span is a
whole JSON number (`transformRecord_valid_iff`).
-/

namespace S4.Filters

open Lib Lib.Json List Option Piece Reader
open Records (Bytes Record Parsers DecoderLimits CsvState IsDocument ReadsTexts
  Exchanged readerParsers)

/-! ### The filter -/

/-- A string that needs no escapes, as it is written. -/
def jsonString (content : Bytes) : Bytes := quote :: (content ++ [quote])

/-- The members of an object of such strings, with their commas. -/
def jsonMembers : List (String × Bytes) → Bytes
  | [] => []
  | [(key, v)] => jsonString (ascii key) ++ [0x3a] ++ jsonString v
  | (key, v) :: ms => jsonString (ascii key) ++ [0x3a] ++ jsonString v ++ ([0x2c] ++ jsonMembers ms)

/-- An object of strings that need no escapes, as it is written. -/
def jsonObject (members : List (String × Bytes)) : Bytes :=
  [0x7b] ++ (jsonMembers members ++ [0x7d])

/-- The object of an envelope, with its keys in order. -/
def envelope (iv encDek ct tag : Bytes) : Bytes :=
  jsonObject [("alg", ascii "RSA-OAEP/AES-256-GCM"), ("ct", ct), ("enc_dek", encDek), ("iv", iv),
    ("tag", tag)]

/-- The external ciphers over the state of the generator: the nonce, the wrapped key and the
ciphertext with its tag. -/
structure Ciphers (σ : Type) where
  encrypt : σ → (field : Bytes) → Except Bytes (Bytes × Bytes × Bytes) × σ
  base64 : Bytes → Bytes

variable {σ : Type} (ciphers : Ciphers σ)

/-- The envelope of one field, the tag cut from the end of its ciphertext. -/
def encryptField (s : σ) (field marker : Bytes) : Except Bytes Bytes × σ :=
  match ciphers.encrypt s field with
  | (.error e, s) => (.error e, s)
  | (.ok (iv, encDek, ctFull), s) =>
    if ctFull.length < 16 then
      (.error (ascii "ciphertext too short to carry a tag for " ++ marker), s)
    else
      let split := ctFull.length - 16
      (.ok (envelope (ciphers.base64 iv) (ciphers.base64 encDek)
        (ciphers.base64 (ctFull.take split)) (ciphers.base64 (ctFull.drop split))), s)

/-- The loop over the sorted spans.  Where the ciphers fail, the marker is written. -/
def writeEnvelopes (input : Bytes) : σ → (pos : Nat) → List Span → Bytes × σ
  | s, pos, [] => (input.drop pos, s)
  | s, pos, span :: rest =>
    if span.start < pos then writeEnvelopes input s pos rest
    else
      let (result, s) := encryptField ciphers s (slice input span.start span.stop) span.marker
      let text := match result with
        | .ok envelope => envelope
        | .error _ => span.marker
      let (output, s) := writeEnvelopes input s span.stop rest
      (slice input pos span.start ++ text ++ output, s)

def transformRecord [Parsers] (hasKey : Bool) (s : σ) (payload : Bytes) :
    Except String (Bytes × σ) :=
  match Parsers.utf8 payload with
  | .error e => .error e
  | .ok () =>
    if !hasKey then .ok (redactPii payload, s)
    else
      let spans := findAllSpans payload
      if spans = [] then .ok (payload, s)
      else .ok (writeEnvelopes ciphers payload s 0 (spans.insertionSort Span.le))

/-! ### The pieces that are written -/

variable {ciphers} {x out text w q seen : Bytes} {s s' : σ} {pos maxCsvFields fields : Nat}
  {spans : List Span} {ps ps' : List Piece} {b : UInt8} {state : CsvState} {span : Span}
  {reader : Reader} {expect : Expect} {stack : List Container} {ms : List (String × Bytes)}
  {s₀ : State}

def isBase64 (b : UInt8) : Bool :=
  (0x41 ≤ b && b ≤ 0x5a) || (0x61 ≤ b && b ≤ 0x7a) || (0x30 ≤ b && b ≤ 0x39) ||
    b == 0x2b || b == 0x2f || b == 0x3d

/-- The ciphers do not fail, and give base64. -/
structure Ciphers.Sound (ciphers : Ciphers σ) : Prop where
  encrypt : ∀ s field, ∃ r, (ciphers.encrypt s field).1 = .ok r ∧ 16 ≤ r.2.2.length
  base64 : ∀ bytes, ∀ b ∈ ciphers.base64 bytes, isBase64 b = true

def IsEnvelope (text : Bytes) : Prop :=
  ∃ iv encDek ct tag, text = envelope iv encDek ct tag ∧
    ∀ b ∈ iv ++ encDek ++ ct ++ tag, isBase64 b = true

theorem encryptField_ok (h : ciphers.Sound) (s : σ) (field marker : Bytes) :
    ∃ text, (encryptField ciphers s field marker).1 = .ok text ∧ IsEnvelope text := by
  obtain ⟨⟨iv, encDek, ctFull⟩, hencrypt, hlen⟩ := h.encrypt s field
  have hb := h.base64
  rw [encryptField]
  rcases hr : ciphers.encrypt s field with ⟨result, s'⟩
  obtain rfl : result = .ok (iv, encDek, ctFull) := by rw [← hencrypt, hr]
  simp only [if_neg (Nat.not_lt.mpr hlen)]
  refine ⟨_, rfl, _, _, _, _, rfl, fun b hmem => ?_⟩
  simp only [mem_append] at hmem
  rcases hmem with ((hmem | hmem) | hmem) | hmem <;> exact hb _ b hmem

/-- A piece, and what is written for it. -/
inductive Encloses : Piece → Piece → Prop
  | byte (b : UInt8) : Encloses (.byte b) (.byte b)
  | token (span : Span) {text : Bytes} (h : IsEnvelope text) :
      Encloses (.token span) (.token { span with marker := text })

/-- Spans that overlap one before are left out anyway. -/
theorem selectSpans_dedup (h : ∀ span ∈ spans, span.start < span.stop) (pos : Nat) :
    selectSpans pos (dedupByStart spans) = selectSpans pos spans := by
  induction spans generalizing pos with
  | nil => rfl
  | cons span rest ih =>
    have ih' := ih fun span' hspan' => h span' (mem_cons_of_mem _ hspan')
    have hlt := h span mem_cons_self
    rw [dedupByStart]
    cases hrest : dedupByStart rest with
    | nil =>
      rw [hrest] at ih'
      simp only [selectSpans, ← ih']
    | cons next =>
      rw [hrest] at ih'
      simp only
      split
      · next heq =>
        simp only [selectSpans, ← ih', heq, if_pos hlt]
        split <;> rfl
      · simp only [selectSpans, ← ih']

theorem writeEnvelopes_select (s : σ) (pos : Nat) (spans : List Span) :
    writeEnvelopes ciphers x s pos spans =
      writeEnvelopes ciphers x s pos (selectSpans pos spans) := by
  induction spans generalizing s pos with
  | nil => rfl
  | cons span rest ih =>
    rw [selectSpans]
    split
    · next hlt => rw [writeEnvelopes, if_pos hlt, ih]
    · next hlt =>
      rw [writeEnvelopes, writeEnvelopes, if_neg hlt, if_neg hlt]
      simp only [ih]

theorem writeEnvelopes_byte {s : σ} (hb : x[pos]? = some b)
    (hspans : ∀ span ∈ spans, pos < span.start) :
    (writeEnvelopes ciphers x s pos spans).1 =
    b :: (writeEnvelopes ciphers x s (pos + 1) spans).1 := by
  cases spans with
  | nil => rw [writeEnvelopes, writeEnvelopes, cons_drop hb]
  | cons span =>
    have hlt := hspans span mem_cons_self
    rw [writeEnvelopes, writeEnvelopes, if_neg (by omega), if_neg (by omega), slice_cons hb hlt]
    rfl

theorem Reads.writeEnvelopes (hc : ciphers.Sound) (h : Reads x pos ps) (s : σ) :
    ∃ ps', List.Forall₂ Encloses ps ps' ∧
      (writeEnvelopes ciphers x s pos (ps.filterMap token?)).1 = ps'.flatMap written := by
  induction h generalizing s with
  | done => exact ⟨[], .nil, drop_length⟩
  | @byte pos b ps hb _ hrest ih =>
    obtain ⟨ps', hps', htext⟩ := ih s
    refine ⟨.byte b :: ps', .cons (.byte b) hps', ?_⟩
    rw [flatMap_cons, ← htext]
    exact writeEnvelopes_byte hb fun span hspan => hrest.le_start hspan
  | @token pos span ps hsome _ ih =>
    obtain ⟨rfl, -, -⟩ := tokenFrom_spec hsome
    have hnil : slice x span.start span.start = [] := by
      rw [slice, drop_take, Nat.sub_self, take_zero]
    obtain ⟨text, hfield, henvelope⟩ :=
      encryptField_ok hc s (slice x span.start span.stop) span.marker
    obtain ⟨ps', hps', hrest⟩ :=
      ih (encryptField ciphers s (slice x span.start span.stop) span.marker).2
    refine ⟨.token { span with marker := text } :: ps', .cons (.token span henvelope) hps', ?_⟩
    show (S4.Filters.writeEnvelopes ciphers x s span.start (span :: _)).1 = _
    rw [S4.Filters.writeEnvelopes, if_neg (Nat.lt_irrefl _), flatMap_cons, ← hrest]
    simp only [hfield, hnil, nil_append]
    rfl

/-- **The filter writes the pieces, with an envelope for every token.** -/
theorem transformRecord_eq_pieces [Parsers] (hc : ciphers.Sound)
    (h : transformRecord ciphers true s x = .ok (out, s')) :
    ∃ ps, List.Forall₂ Encloses (pieces x) ps ∧ out = ps.flatMap written := by
  have hselect : selectSpans 0 ((findAllSpans x).insertionSort Span.le) =
      (pieces x).filterMap token? := by
    rw [pieces_tokens, replaced, sortSpans, selectSpans_dedup]
    intro span hspan
    exact findAllSpans_lt ((mem_insertionSort Span.le).mp hspan)
  obtain ⟨ps, hps, htext⟩ := (reads_pieces x).writeEnvelopes hc s
  rw [← hselect, ← writeEnvelopes_select] at htext
  refine ⟨ps, hps, ?_⟩
  rw [← htext]
  rw [transformRecord] at h
  split at h
  · cases h
  · simp only [Bool.not_true, Bool.false_eq_true, if_false] at h
    split at h
    · next hnil =>
      cases h
      rw [hnil]
      rfl
    · rw [Except.ok.injEq] at h
      rw [h]

/-- The front of every envelope. -/
def envelopeFront : Bytes :=
  [0x7b, quote] ++ ascii "alg" ++ [quote, 0x3a, quote] ++ ascii "RSA-OAEP/"

theorem IsEnvelope.front {text : Bytes} (h : IsEnvelope text) :
    ∃ rest, text = envelopeFront ++ rest := by
  obtain ⟨iv, encDek, ct, tag, rfl, -⟩ := h
  have halg : ascii "RSA-OAEP/AES-256-GCM" = ascii "RSA-OAEP/" ++ ascii "AES-256-GCM" := by decide
  refine ⟨ascii "AES-256-GCM" ++ [quote, 0x2c] ++ (jsonMembers [("ct", ct), ("enc_dek", encDek),
    ("iv", iv), ("tag", tag)] ++ [0x7d]), ?_⟩
  simp [envelope, envelopeFront, jsonObject, jsonMembers, jsonString, halg]

/-! ### In a CSV record -/

/-- No state of the scan takes an envelope: its first quote is in a field that has none, or ends
one. -/
theorem csvFlags_envelope {text q : Bytes}
    (h : IsEnvelope text) : csvFlags maxCsvFields state fields (text ++ q) = none := by
  obtain ⟨rest, rfl⟩ := h.front
  have hfront : envelopeFront = 0x7b :: quote :: 0x61 :: envelopeFront.drop 3 := by decide
  rw [hfront, cons_append, cons_append, cons_append, cons_append, cons_append,
    cons_append]
  cases state <;>
    simp [csvFlags, CsvState.scan, quote, Records.quote, Records.comma, Records.lf, Records.cr]

theorem csvFlags_token (h : List.Forall₂ Encloses ps ps') (hspan : token span ∈ ps) :
    csvFlags maxCsvFields state fields (ps'.flatMap written) = none := by
  induction h generalizing state fields with
  | nil => cases hspan
  | cons hp hps ih =>
    rw [flatMap_cons]
    cases hp with
    | token span henvelope => exact csvFlags_envelope henvelope
    | byte b =>
      have hrest := (mem_cons.mp hspan).resolve_left (by rintro ⟨⟩)
      rw [written, singleton_append, csvFlags]
      cases state.scan maxCsvFields fields b with
      | error => rfl
      | ok move =>
        cases move with
        | boundary => rfl
        | advance => simp [ih hrest]

/-! ### In a JSON text -/

/-- The bytes of envelopes and numbers, as the lexer takes them. -/
theorem json_byte_spec : ∀ b, (isBase64 b = true → isSafe b = true) ∧
    (isTokenByte b = true → isBareByte b = true ∨ b = space) ∧
    (isAsciiDigit b = true → isBareByte b = true) ∧
    (isBareByte b = true → outStep b = some (.bare [b], [])) :=
  forall_byte (by decide +kernel)

theorem feed_member {key : String} (hexpect : expect = .firstKey ∨ expect = .key)
    (hkey : ∀ b ∈ ascii key, isSafe b = true) (hvalue : ∀ b ∈ w, isSafe b = true) :
    reader.feed ⟨.out, expect, stack⟩ (jsonString (ascii key) ++ [0x3a] ++ jsonString w) =
      some ⟨.out, .next, stack⟩ := by
  have hstep : reader.step expect stack .str = some (.colon, stack) := by
    rcases hexpect with rfl | rfl <;> rfl
  have hcolon : reader.feed ⟨.out, .colon, stack⟩ [0x3a] = some ⟨.out, .value, stack⟩ := rfl
  rw [jsonString, jsonString, feed_append, feed_append,
    feed_string hkey, hstep, map_some, bind_some, hcolon, bind_some,
    feed_string hvalue]
  rfl

theorem feed_members (hms : ms ≠ [])
    (hsafe : ∀ m ∈ ms, (∀ b ∈ ascii m.1, isSafe b = true) ∧ ∀ b ∈ m.2, isSafe b = true)
    (hexpect : expect = .firstKey ∨ expect = .key) :
    reader.feed ⟨.out, expect, .object :: stack⟩ (jsonMembers ms) =
      some ⟨.out, .next, .object :: stack⟩ := by
  induction ms generalizing expect with
  | nil => exact absurd rfl hms
  | cons m ms ih =>
    obtain ⟨hkey, hvalue⟩ := hsafe m mem_cons_self
    cases ms with
    | nil => exact feed_member hexpect hkey hvalue
    | cons m' ms =>
      have hcomma : reader.feed ⟨.out, .next, .object :: stack⟩ [0x2c] =
          some ⟨.out, .key, .object :: stack⟩ := rfl
      rw [jsonMembers, feed_append, feed_member hexpect hkey hvalue, bind_some,
        feed_append, hcomma, bind_some]
      · exact ih (cons_ne_nil m' ms) (fun m hm => hsafe m (mem_cons_of_mem _ hm)) (.inr rfl)
      · exact cons_ne_nil m' ms

theorem feed_object (hms : ms ≠ [])
    (hsafe : ∀ m ∈ ms, (∀ b ∈ ascii m.1, isSafe b = true) ∧ ∀ b ∈ m.2, isSafe b = true) :
    reader.feed ⟨.out, expect, stack⟩ (jsonObject ms) =
      (reader.step expect stack .beginObject).map fun _ => ⟨.out, .next, stack⟩ := by
  have hbrace : outStep 0x7b = some (.out, [.beginObject]) := by decide
  have hclose : reader.feed ⟨.out, .next, .object :: stack⟩ [0x7d] = some ⟨.out, .next, stack⟩ :=
    rfl
  rw [jsonObject, singleton_append, feed, read_punctuation hbrace]
  cases hstep : reader.step expect stack .beginObject with
  | none => rfl
  | some =>
    obtain ⟨-, -, rfl⟩ := step_beginObject hstep
    rw [map_some, bind_some, feed_append, feed_members hms hsafe (.inl rfl),
      bind_some, hclose]
    rfl

theorem IsEnvelope.members (h : IsEnvelope text) : ∃ ms, ms ≠ [] ∧ text = jsonObject ms ∧
    ∀ m ∈ ms, (∀ b ∈ ascii m.1, isSafe b = true) ∧ ∀ b ∈ m.2, isSafe b = true := by
  obtain ⟨iv, encDek, ct, tag, rfl, hbase64⟩ := h
  have hsafe : ∀ b ∈ iv ++ encDek ++ ct ++ tag, isSafe b = true := fun b hb =>
    (json_byte_spec b).1 (hbase64 b hb)
  simp only [mem_append] at hsafe
  refine ⟨_, cons_ne_nil _ _, rfl, ?_⟩
  simp only [forall_mem_cons, not_mem_nil, false_implies, implies_true, and_true]
  refine ⟨⟨?_, ?_⟩, ⟨?_, fun b hb => hsafe b (.inl (.inr hb))⟩,
    ⟨?_, fun b hb => hsafe b (.inl (.inl (.inr hb)))⟩,
      ⟨?_, fun b hb => hsafe b (.inl (.inl (.inl hb)))⟩,
    ⟨?_, fun b hb => hsafe b (.inr hb)⟩⟩ <;> decide +kernel

theorem feed_envelope (h : IsEnvelope text) :
    reader.feed ⟨.out, expect, stack⟩ text =
      (reader.step expect stack .beginObject).map fun _ => ⟨.out, .next, stack⟩ := by
  obtain ⟨ms, hms, rfl, hsafe⟩ := h.members
  exact feed_object hms hsafe

/-- The first quote of an envelope ends the string that it is written in. -/
theorem accepts_envelope_string {inner : StringMode} (h : IsEnvelope text) :
    reader.accepts ⟨.str inner, expect, stack⟩ (text ++ q) = false := by
  obtain ⟨rest, rfl⟩ := h.front
  have hfront : lexPart (.str inner) envelopeFront = none := by
    cases inner with
    | plain => rfl
    | escape low => cases low <;> rfl
    | hex => rfl
    | pair => rfl
  rw [append_assoc]
  exact accepts_of_lexPart hfront

/-- Behind a part of a number, or behind a value, an envelope is no value. -/
theorem accepts_envelope_bare (h : IsEnvelope text) :
    reader.accepts ⟨.bare seen, expect, stack⟩ (text ++ q) = false := by
  have hhead : ∀ b, (text ++ q).head? = some b → isBareByte b = false := by
    obtain ⟨rest, rfl⟩ := h.front
    intro b hb
    cases hb
    rfl
  rw [accepts_bare hhead]
  cases hstep : reader.step expect stack (.bare seen) with
  | none => rfl
  | some =>
    obtain ⟨-, rfl⟩ := step_bare hstep
    rw [any_some, accepts_append, feed_envelope h]
    rfl

/-! #### The text of a number -/

/-- Behind a value no digits follow. -/
theorem accepts_digits_next (hw : ∀ b ∈ w, isTokenByte b = true)
    (hlast : ∃ b, w.getLast? = some b ∧ isBareByte b = true) :
    reader.accepts ⟨.out, .next, stack⟩ (w ++ q) = false := by
  induction w with
  | nil =>
    obtain ⟨b, hb, -⟩ := hlast
    cases hb
  | cons b w ih =>
    rw [cons_append, Reader.accepts_cons]
    rcases (json_byte_spec b).2.1 (hw b mem_cons_self) with hbare | rfl
    · rw [Reader.read, Mode.step, (json_byte_spec b).2.2.2 hbare]
      exact accepts_bare_next [b] (w ++ q)
    · refine ih (fun b' hb' => hw b' (mem_cons_of_mem _ hb')) ?_
      obtain ⟨b', hb', hbare⟩ := hlast
      cases w with
      | nil =>
        cases hb'
        cases hbare
      | cons => exact ⟨b', by rwa [getLast?_cons_cons] at hb', hbare⟩

/-- The digits of a number in a valid text are bytes of one number. -/
theorem feed_digits (hw : ∀ b ∈ w, isTokenByte b = true)
    (hlast : ∀ b, w.getLast? = some b → isBareByte b = true)
    (h : reader.accepts ⟨.bare seen, expect, stack⟩ (w ++ q) = true) :
    reader.feed ⟨.bare seen, expect, stack⟩ w = some ⟨.bare (seen ++ w), expect, stack⟩ := by
  induction w generalizing seen with
  | nil => rw [append_nil]; rfl
  | cons b w ih =>
    have hw' : ∀ b' ∈ w, isTokenByte b' = true := fun b' hb' => hw b' (mem_cons_of_mem _ hb')
    have hlast' : w ≠ [] → w.getLast? = (b :: w).getLast? := by
      intro hne
      obtain ⟨c, w, rfl⟩ := exists_cons_of_ne_nil hne
      rw [getLast?_cons_cons]
    rw [cons_append] at h
    rcases (json_byte_spec b).2.1 (hw b mem_cons_self) with hbare | rfl
    · have hread : reader.read ⟨.bare seen, expect, stack⟩ b =
          some ⟨.bare (seen ++ [b]), expect, stack⟩ := by
        rw [Reader.read, Mode.step, if_pos hbare]
        rfl
      rw [Reader.accepts_cons, hread] at h
      rw [feed, hread, bind_some, ih hw' ?_ h, append_assoc, singleton_append]
      intro b' hb'
      exact hlast b' (hlast' (by rintro rfl; cases hb') ▸ hb')
    · -- a space ends the number, and another one follows
      exfalso
      have hne : w ≠ [] := by
        rintro rfl
        cases hlast space rfl
      rw [accepts_bare (by rintro b ⟨⟩; rfl)] at h
      cases hstep : reader.step expect stack (.bare seen) with
      | none => simp [hstep] at h
      | some =>
        obtain ⟨-, rfl⟩ := step_bare hstep
        rw [hstep, any_some, Reader.accepts_cons] at h
        have hnext : reader.accepts ⟨.out, .next, stack⟩ (w ++ q) = false :=
          accepts_digits_next hw' ⟨w.getLast hne, getLast?_eq_some_getLast hne,
            hlast _ (hlast' hne ▸ getLast?_eq_some_getLast hne)⟩
        exact absurd h (by rw [Bool.not_eq_true]; exact hnext)

/-! #### The whole text -/

/-- The start of a text. -/
def startState : State := ⟨.out, .value, []⟩

/-- The span is a whole number, where an object may be nested. -/
def WholeNumber (reader : Reader) (x : Bytes) (span : Span) : Prop :=
  (∃ expect stack, reader.feed startState (x.take span.start) = some ⟨.out, expect, stack⟩ ∧
    stack.length < reader.maxDepth) ∧
  ∀ b, x[span.stop]? = some b → isBareByte b = false

/-- The state of the text and of what is written for it.  They differ behind a number: the lexer
waits for more of its bytes, and an envelope has ended. -/
def Abreast (reader : Reader) (x : Bytes) (pos : Nat) (s₀ s : State) : Prop :=
  s₀ = s ∨ ∃ seen expect stack, s₀ = ⟨.bare seen, expect, stack⟩ ∧
    reader.step expect stack (.bare seen) = some (s.expect, s.stack) ∧ s.mode = .out ∧
    ∀ b, x[pos]? = some b → isBareByte b = false

theorem Abreast.read {s : State} (h : Abreast reader x pos s₀ s) (hb : x[pos]? = some b) :
    reader.read s₀ b = reader.read s b := by
  rcases h with rfl | ⟨seen, expect, stack, rfl, hstep, hmode, hnext⟩
  · rfl
  · rw [read_bare (hnext b hb), hstep, bind_some]
    cases s
    cases hmode
    rfl

theorem feed_take_succ (h : reader.feed startState (x.take pos) = some s₀) (hb : x[pos]? = some b) :
    reader.feed startState (x.take (pos + 1)) = reader.read s₀ b := by
  rw [take_add_one, hb, toList_some, feed_append, h, bind_some, feed]
  cases reader.read s₀ b <;> rfl

theorem feed_take_token
    (h : reader.feed startState (x.take pos) = some s₀) (hsome : tokenFrom x pos = some span) :
    reader.feed startState (x.take span.stop) = reader.feed s₀ (Piece.text x (.token span)) := by
  obtain ⟨rfl, hlt, -⟩ := tokenFrom_spec hsome
  rw [Piece.text, ← take_append_slice x (Nat.le_of_lt hlt), feed_append, h, bind_some]

/-- A token outside of strings in a valid text is a number, and its bytes are of one JSON number. -/
theorem feed_token (hmem : token span ∈ pieces x)
    (h : reader.accepts ⟨.out, expect, stack⟩ (Piece.text x (.token span) ++ q) = true) :
    holdsAt isAsciiDigit x span.start = true ∧
      reader.feed ⟨.out, expect, stack⟩ (Piece.text x (.token span)) =
        some ⟨.bare (Piece.text x (.token span)), expect, stack⟩ := by
  obtain ⟨-, hlt, hle⟩ := tokenFrom_spec (token_mem_pieces hmem).2
  rcases token_cases hmem with ⟨hemail, -⟩ | ⟨kind, hnumber, -⟩
  · have hnone : lexPart .out (Piece.text x (.token span)) = none :=
      lexPart_stray rfl (text_spec hmem).1 hemail.atSign_mem isStray_atSign
    rw [accepts_of_lexPart hnone] at h
    cases h
  · refine ⟨hnumber.trimmed.first, ?_⟩
    obtain ⟨d, hd, hdigit⟩ := holdsAt_eq_true.mp hnumber.trimmed.first
    obtain ⟨w, hw⟩ := head?_eq_some_iff.mp ((head?_slice hlt).trans hd)
    have hall : ∀ b ∈ slice x span.start span.stop, isTokenByte b = true :=
      all_slice hnumber.trimmed.all
    have hlast : ∀ b, (slice x span.start span.stop).getLast? = some b → isBareByte b = true := by
      intro b hb
      rw [getLast?_slice hlt hle] at hb
      have hat := hnumber.trimmed.last
      rw [holdsAt_of_getElem hb] at hat
      exact (json_byte_spec b).2.2.1 hat
    rw [Piece.text, hw] at h ⊢
    rw [hw] at hall hlast
    have hread : reader.read ⟨.out, expect, stack⟩ d = some ⟨.bare [d], expect, stack⟩ := by
      rw [Reader.read, Mode.step, (json_byte_spec d).2.2.2 ((json_byte_spec d).2.2.1 hdigit)]
      rfl
    rw [cons_append, Reader.accepts_cons, hread] at h
    rw [feed, hread, bind_some]
    refine feed_digits (fun b hb => hall b (mem_cons_of_mem d hb)) (fun b hb => ?_) h
    refine hlast b ?_
    cases w with
    | nil => cases hb
    | cons => rwa [getLast?_cons_cons]

/-- Behind an envelope no more bytes of a number follow. -/
theorem accepts_bare_behind (h : Reads x pos ps)
    (henc : List.Forall₂ Encloses ps ps') (hb : x[pos]? = some b) (hbare : isBareByte b = true) :
    reader.accepts ⟨.out, .next, stack⟩ (ps'.flatMap written) = false := by
  cases henc with
  | nil =>
    have htext := h.text_eq
    rw [flatMap_nil, ← cons_drop hb] at htext
    cases htext
  | cons hp =>
    rw [flatMap_cons]
    cases hp with
    | byte c =>
      obtain rfl : b = c := some.inj (hb.symm.trans h.byte_inv.1)
      rw [written, singleton_append, Reader.accepts_cons, Reader.read, Mode.step,
        (json_byte_spec b).2.2.2 hbare]
      exact accepts_bare_next [b] _
    | token span henvelope =>
      rw [written, accepts_append, feed_envelope henvelope]
      rfl

theorem Abreast.eq_of_out {s : State} (h : Abreast reader x pos s₀ s) (hmode : s₀.mode = .out) :
    s₀ = s := by
  rcases h with rfl | ⟨seen, expect, stack, rfl, -⟩
  · rfl
  · cases hmode

theorem Abreast.eq_of_digit {s : State} (h : Abreast reader x pos s₀ s)
    (hdigit : holdsAt isAsciiDigit x pos = true) : s₀ = s := by
  rcases h with rfl | ⟨seen, expect, stack, -, -, -, hnext⟩
  · rfl
  · obtain ⟨d, hd, hdigit⟩ := holdsAt_eq_true.mp hdigit
    have hbare := (json_byte_spec d).2.2.1 hdigit
    rw [hnext d hd] at hbare
    cases hbare

/-- What is written for a valid text is valid exactly if every token is a whole number. -/
theorem accepts_written_iff {s : State} (h : Reads x pos ps)
    (hps : ∀ p ∈ ps, p ∈ pieces x) (henc : List.Forall₂ Encloses ps ps')
    (hfeed : reader.feed startState (x.take pos) = some s₀) (habreast : Abreast reader x pos s₀ s)
    (htext : reader.accepts s (ps.flatMap (Piece.text x)) = true) :
    reader.accepts s (ps'.flatMap written) = true ↔
      ∀ span, token span ∈ ps → WholeNumber reader x span := by
  induction h generalizing ps' s₀ s with
  | done =>
    cases henc
    exact ⟨fun _ span hspan => absurd hspan not_mem_nil, fun _ => htext⟩
  | @byte pos b ps hb hnone hrest ih =>
    cases henc with
    | cons hp hps' =>
      cases hp
      rw [flatMap_cons, Piece.text, singleton_append, Reader.accepts_cons] at htext
      rw [flatMap_cons, written, singleton_append, Reader.accepts_cons]
      cases hread : reader.read s b with
      | none => simp [hread] at htext
      | some =>
        rw [hread, any_some] at htext
        have hnext := (feed_take_succ hfeed hb).trans ((habreast.read hb).trans hread)
        rw [any_some, ih (fun p hp => hps p (mem_cons_of_mem _ hp)) hps' hnext (.inl rfl)
          htext]
        simp
  | @token pos span ps hsome hrest ih =>
    cases henc with
    | @cons _ p' _ ps' hp hps' =>
      cases hp with
      | @token _ text henvelope =>
        obtain ⟨rfl, -, -⟩ := tokenFrom_spec hsome
        have hmem := hps _ mem_cons_self
        rw [flatMap_cons] at htext ⊢
        have hwhole : WholeNumber reader x span → ∃ expect stack, s = ⟨.out, expect, stack⟩ ∧
            stack.length < reader.maxDepth := by
          rintro ⟨⟨expect, stack, hstate, hdepth⟩, -⟩
          obtain rfl := some.inj (hfeed.symm.trans hstate)
          exact ⟨expect, stack, (habreast.eq_of_out rfl).symm, hdepth⟩
        rcases s with ⟨mode, expect, stack⟩
        cases mode with
        | str =>
          rw [written, accepts_envelope_string henvelope]
          refine ⟨fun h => absurd h Bool.false_ne_true, fun h => ?_⟩
          obtain ⟨expect, stack, heq, -⟩ := hwhole (h span mem_cons_self)
          cases heq
        | bare =>
          rw [written, accepts_envelope_bare henvelope]
          refine ⟨fun h => absurd h Bool.false_ne_true, fun h => ?_⟩
          obtain ⟨expect, stack, heq, -⟩ := hwhole (h span mem_cons_self)
          cases heq
        | out =>
          obtain ⟨hdigit, htoken⟩ := feed_token hmem htext
          obtain rfl : s₀ = ⟨.out, expect, stack⟩ := habreast.eq_of_digit hdigit
          have hstop := (feed_take_token hfeed hsome).trans htoken
          rw [accepts_append, htoken, any_some] at htext
          rw [written, accepts_append, feed_envelope henvelope]
          by_cases hnext : ∀ b, x[span.stop]? = some b → isBareByte b = false
          · have hhead : ∀ b, (ps.flatMap (Piece.text x)).head? = some b →
              isBareByte b = false := by
              rw [hrest.text_eq, head?_drop]
              exact hnext
            rw [accepts_bare hhead] at htext
            cases hstep : reader.step expect stack (.bare (Piece.text x (.token span))) with
            | none => simp [hstep] at htext
            | some r =>
              obtain ⟨hexpect, rfl⟩ := step_bare hstep
              rw [hstep, any_some] at htext
              have hrest' := ih (fun p hp => hps p (mem_cons_of_mem _ hp)) hps' hstop
                (.inr ⟨_, _, _, rfl, hstep, rfl, hnext⟩) htext
              by_cases hdepth : stack.length < reader.maxDepth
              · rw [step_beginObject_of hexpect hdepth, map_some,
                  any_some, hrest']
                refine ⟨fun h span' hspan' => ?_, fun h span' hspan' =>
                  h span' (mem_cons_of_mem _ hspan')⟩
                rcases mem_cons.mp hspan' with heq | hspan'
                · cases heq
                  exact ⟨⟨expect, stack, hfeed, hdepth⟩, hnext⟩
                · exact h span' hspan'
              · have hnone : reader.step expect stack .beginObject = none := by
                  rw [eq_none_iff_forall_ne_some]
                  exact fun r hr => hdepth (step_beginObject hr).2.1
                rw [hnone]
                refine ⟨fun h => absurd h Bool.false_ne_true, fun h => ?_⟩
                obtain ⟨_, _, heq, hlt⟩ := hwhole (h span mem_cons_self)
                cases heq
                exact absurd hlt hdepth
          · refine ⟨fun h => ?_, fun h => absurd (h span mem_cons_self).2 hnext⟩
            simp only [not_forall, Bool.not_eq_false] at hnext
            obtain ⟨b, hb, hbare⟩ := hnext
            cases hstep : reader.step expect stack .beginObject with
            | none => simp [hstep] at h
            | some =>
              rw [hstep, map_some, any_some,
                accepts_bare_behind hrest hps' hb hbare] at h
              cases h

theorem exists_token (h : findAllSpans x ≠ []) : ∃ span, token span ∈ pieces x := by
  obtain ⟨span, rest, hspans⟩ := exists_cons_of_ne_nil h
  obtain ⟨first, hfirst, -⟩ := exists_mem_sortSpans (hspans ▸ mem_cons_self : span ∈ findAllSpans x)
  obtain ⟨a, rest, hsort⟩ := exists_cons_of_ne_nil (ne_nil_of_mem hfirst)
  have hmem : a ∈ replaced (findAllSpans x) := by
    rw [replaced, hsort, selectSpans, if_neg (Nat.not_lt_zero _)]
    exact mem_cons_self
  rw [← pieces_tokens, mem_filterMap] at hmem
  obtain ⟨p, hp, htoken⟩ := hmem
  cases p with
  | byte => cases htoken
  | token span => exact ⟨span, hp⟩

theorem transformRecord_nothing [Parsers] (hnil : findAllSpans x = [])
    (h : transformRecord ciphers true s x = .ok (out, s')) : out = x := by
  rw [transformRecord] at h
  split at h
  · cases h
  · simp only [Bool.not_true, Bool.false_eq_true, if_false, hnil, if_true] at h
    cases h
    rfl

theorem le_of_mem_jsonString (h : ∀ b ∈ w, isSafe b = true) : ∀ b ∈ jsonString w, 0x20 ≤ b := by
  rw [jsonString, forall_mem_cons, forall_mem_append, forall_mem_singleton]
  exact ⟨by decide, fun b hb => le_of_safe (h b hb), by decide⟩

theorem le_of_mem_jsonMembers
    (hsafe : ∀ m ∈ ms, (∀ b ∈ ascii m.1, isSafe b = true) ∧ ∀ b ∈ m.2, isSafe b = true) :
    ∀ b ∈ jsonMembers ms, 0x20 ≤ b := by
  induction ms with
  | nil => exact fun b hb => absurd hb not_mem_nil
  | cons m ms ih =>
    obtain ⟨hkey, hvalue⟩ := hsafe m mem_cons_self
    have hmember : ∀ b ∈ jsonString (ascii m.1) ++ [0x3a] ++ jsonString m.2, 0x20 ≤ b := by
      rw [forall_mem_append, forall_mem_append, forall_mem_singleton]
      exact ⟨⟨le_of_mem_jsonString hkey, by decide⟩, le_of_mem_jsonString hvalue⟩
    cases ms with
    | nil => exact hmember
    | cons m' ms =>
      rw [jsonMembers, forall_mem_append, singleton_append, forall_mem_cons]
      · exact ⟨hmember, by decide, ih fun m hm => hsafe m (mem_cons_of_mem _ hm)⟩
      · exact cons_ne_nil m' ms

theorem IsEnvelope.exchanged (h : IsEnvelope text) (part : Bytes) : Exchanged part text := by
  obtain ⟨ms, -, rfl, hsafe⟩ := h.members
  refine .inr ⟨cons_ne_nil _ _, ?_⟩
  rw [jsonObject, forall_mem_append, forall_mem_append]
  exact ⟨forall_mem_singleton.mpr (by decide), le_of_mem_jsonMembers hsafe,
    forall_mem_singleton.mpr (by decide)⟩

theorem exchanged_enclosed (h : List.Forall₂ Encloses ps ps') :
    List.Forall₂ Exchanged (ps.map (Piece.text x)) (ps'.map written) := by
  rw [forall₂_map_left_iff, forall₂_map_right_iff]
  refine h.imp fun p p' hp => ?_
  cases hp with
  | byte => exact .inl rfl
  | token span henvelope => exact henvelope.exchanged _

/-- **When envelopes keep a record valid.**  A JSON text stays one exactly if each token is a whole
number outside of strings, and the validator then takes it if it is within the limit of a record.  A
CSV payload stays one exactly if nothing is found in it. -/
theorem transformRecord_valid_iff [Parsers] (hc : ciphers.Sound) (s s' : σ) (p out : Bytes)
    (h : transformRecord ciphers true s p = .ok (out, s')) (reader : Reader)
    (limits : DecoderLimits) :
    (reader.isJson p = true →
      (reader.isJson out = true ↔ ∀ span, token span ∈ pieces p → WholeNumber reader p span)) ∧
    (∀ separator, ReadsTexts reader → limits.Positive → Record.IsLine ⟨p, separator⟩ →
      IsDocument reader p → Records.utf8Ok out = true →
      (Records.validateOutputRecords .jsonl [⟨out, separator⟩] limits = .ok () ↔
        (∀ span, token span ∈ pieces p → WholeNumber reader p span) ∧
          Record.Within limits ⟨out, separator⟩)) ∧
    (∀ flags, ReadsPayload limits p flags →
      ((∃ flags', ReadsPayload limits out flags') ↔ findAllSpans p = [])) := by
  obtain ⟨ps, hps, hout⟩ := transformRecord_eq_pieces hc h
  have hiff : reader.isJson p = true →
      (reader.isJson out = true ↔ ∀ span, token span ∈ pieces p → WholeNumber reader p span) := by
    intro hjson
    rw [isJson_eq] at hjson ⊢
    rw [← pieces_text p] at hjson
    rw [hout]
    exact accepts_written_iff (reads_pieces p) (fun _ => id) hps rfl (.inl rfl) hjson
  refine ⟨hiff, fun separator hreads hpos hline hdoc hutf8 => ?_, fun flags hp => ?_⟩
  · rw [hreads.validate_exchanged_iff hpos hline hdoc (exchanged_enclosed hps)
      (pieces_text p) hout.symm, IsDocument, and_iff_right hutf8, hiff hdoc.2]
  · constructor
    · rintro ⟨flags', hreads⟩
      by_contra hne
      obtain ⟨span, hspan⟩ := exists_token hne
      have hflags := hreads.flags
      rw [hout, csvFlags_token hps hspan] at hflags
      cases hflags
    · intro hnil
      rw [transformRecord_nothing hnil h]
      exact ⟨flags, hp⟩

/-- Ciphers that always give the same. -/
def sampleCiphers : Ciphers Unit where
  encrypt s _ := (.ok ([], [], replicate 16 0), s)
  base64 _ := ascii "AA=="

theorem sampleCiphers_sound : sampleCiphers.Sound := by
  have hbase64 : ∀ b ∈ ascii "AA==", isBase64 b = true := by decide +kernel
  exact ⟨fun _ _ => ⟨_, rfl, by decide⟩, fun _ => hbase64⟩

def sampleEnvelope : Bytes := envelope (ascii "AA==") (ascii "AA==") (ascii "AA==") (ascii "AA==")

/-- The number is the only element of an array. -/
theorem card_element_valid : letI := readerParsers Records.anyNumber
    transformRecord sampleCiphers true () (ascii "[4111111111111111]") =
      .ok (ascii "[" ++ sampleEnvelope ++ ascii "]", ()) ∧
    Records.validateOutputRecords .jsonl [⟨ascii "[" ++ sampleEnvelope ++ ascii "]", [Records.lf]⟩]
      wideLimits = .ok () := by
  let _ := readerParsers Records.anyNumber
  have h : transformRecord sampleCiphers true () (ascii "[4111111111111111]") =
      .ok (ascii "[" ++ sampleEnvelope ++ ascii "]", ()) := by decide +kernel
  have hvalid := (transformRecord_valid_iff sampleCiphers_sound () () _ _ h Records.anyNumber
    wideLimits).2.1 [Records.lf] (Records.readsJson_readerParsers _).json
    ⟨by decide, by decide, by decide, by decide⟩
    ⟨by decide +kernel, .inr (.inr ⟨rfl, by decide +kernel⟩)⟩ ⟨rfl, by decide +kernel⟩ rfl
  refine ⟨h, hvalid.mpr ⟨fun span hspan => ?_, by decide +kernel, by decide⟩⟩
  have htokens : ∀ span ∈ (pieces (ascii "[4111111111111111]")).filterMap token?,
      span.start = 1 ∧ span.stop = 17 := by decide +kernel
  obtain ⟨hstart, hstop⟩ := htokens span (mem_filterMap.mpr ⟨_, hspan, rfl⟩)
  refine ⟨⟨.firstElement, [.array], by rw [hstart]; decide +kernel, by decide⟩, fun b hb => ?_⟩
  rw [hstop] at hb
  cases hb
  rfl

/-- An address in a JSON string, and as a CSV record. -/
theorem envelope_invalid : letI := readerParsers Records.anyNumber
    transformRecord sampleCiphers true () (ascii "\"x@y.z\"") =
      .ok (ascii "\"" ++ sampleEnvelope ++ ascii "\"", ()) ∧
    Records.validateOutputRecords .jsonl [⟨ascii "\"x@y.z\"", [Records.lf]⟩] wideLimits = .ok () ∧
    Records.validateOutputRecords .jsonl
      [⟨ascii "\"" ++ sampleEnvelope ++ ascii "\"", [Records.lf]⟩] wideLimits =
        .error ⟨Records.Codes.decodeJsonl, "invalid JSON"⟩ ∧
    transformRecord sampleCiphers true () (ascii "x@y.z") = .ok (sampleEnvelope, ()) ∧
    Records.validateOutputRecords .csv [⟨ascii "x@y.z", [Records.lf]⟩] wideLimits = .ok () ∧
    Records.validateOutputRecords .csv [⟨sampleEnvelope, [Records.lf]⟩] wideLimits =
      .error ⟨Records.Codes.decodeCsv, "quote inside an unquoted CSV field"⟩ := by
  let _ := readerParsers Records.anyNumber
  decide +kernel

end S4.Filters
