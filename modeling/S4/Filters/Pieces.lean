import S4.Filters.Reading
import S4.Lib.Stretches

/-!
# Filters — Pieces

The text as it is read: single bytes, and the tokens that are read as a whole (`pieces`).  Redaction
writes a marker for every token and keeps the bytes (`redactPii_eq_pieces`).
-/

namespace S4.Filters

open Lib List Nat
open Records (Bytes)

variable {x : Bytes} {pos i : Nat} {span : Span} {ps qs : List Piece} {b : UInt8}

inductive Piece where
  | byte (b : UInt8)
  | token (span : Span)
deriving DecidableEq

namespace Piece

/-- The part of the text that the piece is. -/
def text (x : Bytes) : Piece → Bytes
  | byte b => [b]
  | token span => slice x span.start span.stop

/-- What is written for it. -/
def written : Piece → Bytes
  | byte b => [b]
  | token span => span.marker

def token? : Piece → Option Span
  | byte _ => none
  | token span => some span

end Piece

/-- The pieces from a position on; each takes a byte at least. -/
def piecesFrom (x : Bytes) : (rounds : Nat) → (pos : Nat) → List Piece
  | 0,          _ => []
  | rounds + 1, pos =>
    match x[pos]? with
    | none => []
    | some b =>
      match tokenFrom x pos with
      | some span => .token span :: piecesFrom x rounds span.stop
      | none => .byte b :: piecesFrom x rounds (pos + 1)

def pieces (x : Bytes) : List Piece := piecesFrom x x.length 0

/-- The pieces are those that the text is read as, from a position on. -/
inductive Reads (x : Bytes) : Nat → List Piece → Prop
  | done : Reads x x.length []
  | byte {pos : Nat} {b : UInt8} {ps : List Piece} (hb : x[pos]? = some b)
      (hnone : tokenFrom x pos = none) : Reads x (pos + 1) ps → Reads x pos (.byte b :: ps)
  | token {pos : Nat} {span : Span} {ps : List Piece} (hsome : tokenFrom x pos = some span) :
      Reads x span.stop ps → Reads x pos (.token span :: ps)

theorem tokenFrom_spec (h : tokenFrom x pos = some span) :
    span.start = pos ∧ pos < span.stop ∧ span.stop ≤ x.length := by
  obtain ⟨rfl, hmem⟩ := tokenFrom_mem_findAllSpans h
  exact ⟨rfl, findAllSpans_lt hmem, findAllSpans_le_length hmem⟩

theorem reads_piecesFrom {rounds : Nat} (hpos : pos ≤ x.length) (h : x.length ≤ pos + rounds) :
    Reads x pos (piecesFrom x rounds pos) := by
  induction rounds generalizing pos with
  | zero =>
    obtain rfl : pos = x.length := by omega
    exact .done
  | succ rounds ih =>
    rw [piecesFrom]
    cases hb : x[pos]? with
    | none =>
      obtain rfl : pos = x.length := le_antisymm hpos (List.getElem?_eq_none_iff.mp hb)
      exact .done
    | some =>
      have hlt : pos < x.length := (List.getElem?_eq_some_iff.mp hb).1
      cases htoken : tokenFrom x pos with
      | none => exact .byte hb htoken (ih (by omega) (by omega))
      | some =>
        obtain ⟨-, hstop, hle⟩ := tokenFrom_spec htoken
        exact .token htoken (ih hle (by omega))

theorem reads_pieces (x : Bytes) : Reads x 0 (pieces x) :=
  reads_piecesFrom (zero_le _) (by omega)

theorem Reads.token_inv (h : Reads x pos (.token span :: ps)) :
    tokenFrom x pos = some span ∧ Reads x span.stop ps := by
  cases h with
  | token hsome hrest => exact ⟨hsome, hrest⟩

theorem Reads.byte_inv (h : Reads x pos (.byte b :: ps)) :
    x[pos]? = some b ∧ tokenFrom x pos = none ∧ Reads x (pos + 1) ps := by
  cases h with
  | byte hb hnone hrest => exact ⟨hb, hnone, hrest⟩

/-! ### The text of pieces -/

theorem Reads.text_eq (h : Reads x pos ps) : ps.flatMap (Piece.text x) = x.drop pos := by
  induction h with
  | done => rw [drop_length, flatMap_nil]
  | byte hb _ _ ih => rw [flatMap_cons, ih, Piece.text, singleton_append, cons_drop hb]
  | token hsome _ ih =>
    obtain ⟨rfl, hlt, -⟩ := tokenFrom_spec hsome
    rw [flatMap_cons, ih, Piece.text, slice_append_drop x (le_of_lt hlt)]

/-- The pieces are the whole text. -/
theorem pieces_text (x : Bytes) : (pieces x).flatMap (Piece.text x) = x := (reads_pieces x).text_eq

theorem Reads.visits (h : Reads x pos (ps ++ qs)) (hpos : Visits x pos) :
    Reads x (pos + (ps.flatMap (Piece.text x)).length) qs ∧
      Visits x (pos + (ps.flatMap (Piece.text x)).length) := by
  induction ps generalizing pos with
  | nil => exact ⟨h, hpos⟩
  | cons p ps ih =>
    rw [flatMap_cons, length_append, ← add_assoc]
    cases h with
    | byte hb hnone hrest => exact ih hrest (.byte hpos hnone)
    | @token _ span _ hsome hrest =>
      obtain ⟨rfl, hlt, hle⟩ := tokenFrom_spec hsome
      have hlen : span.start + ((Piece.token span).text x).length = span.stop := by
        rw [Piece.text, length_slice _ hle]
        omega
      rw [hlen]
      exact ih hrest (.token hpos hsome)

/-- Every position that is read has pieces in front of it. -/
theorem Reads.exists_split (h : Reads x pos ps) (hpos : Visits x pos) (hle : pos ≤ i)
    (hi : i ≤ x.length) (hvisit : Visits x i) :
    ∃ A B, ps = A ++ B ∧ pos + (A.flatMap (Piece.text x)).length = i := by
  induction h with
  | done => exact ⟨[], [], rfl, by simp; omega⟩
  | @byte pos b ps hb hnone _ ih =>
    rcases eq_or_lt_of_le hle with rfl | hlt
    · exact ⟨[], _, rfl, rfl⟩
    · obtain ⟨A, B, rfl, hA⟩ := ih (.byte hpos hnone) hlt
      exact ⟨.byte b :: A, B,
        rfl, by rw [flatMap_cons, length_append, ← hA]; simp [Piece.text]; omega⟩
  | @token pos span ps hsome _ ih =>
    obtain ⟨rfl, hlt, hlen⟩ := tokenFrom_spec hsome
    rcases eq_or_lt_of_le hle with rfl | hlt'
    · exact ⟨[], _, rfl, rfl⟩
    · have hout := hvisit.not_inside span (mem_replaced_iff.mpr ⟨hpos, hsome⟩)
      obtain ⟨A, B, rfl, hA⟩ := ih (.token hpos hsome) (by omega)
      refine ⟨.token span :: A, B, rfl, ?_⟩
      rw [flatMap_cons, length_append, Piece.text, length_slice _ hlen]
      omega

/-! ### What is written -/

theorem Reads.le_start (h : Reads x pos ps) (hspan : span ∈ ps.filterMap Piece.token?) :
    pos ≤ span.start := by
  induction h with
  | done => cases hspan
  | byte _ _ _ ih => exact le_of_succ_le (ih hspan)
  | token hsome _ ih =>
    obtain ⟨rfl, hlt, -⟩ := tokenFrom_spec hsome
    rcases mem_cons.mp hspan with rfl | hrest
    · exact le_refl _
    · exact (le_of_lt hlt).trans (ih hrest)

theorem Reads.token_mem (h : Reads x pos ps) (hpos : Visits x pos)
    (hspan : span ∈ ps.filterMap Piece.token?) :
    Visits x span.start ∧ tokenFrom x span.start = some span := by
  induction h with
  | done => cases hspan
  | byte _ hnone _ ih => exact ih (.byte hpos hnone) hspan
  | token hsome _ ih =>
    obtain ⟨rfl, -, -⟩ := tokenFrom_spec hsome
    rcases mem_cons.mp hspan with rfl | hrest
    · exact ⟨hpos, hsome⟩
    · exact ih (.token hpos hsome) hrest

theorem Reads.mem_token (h : Reads x pos ps) (hpos : Visits x pos) (hle : pos ≤ span.start)
    (hvisit : Visits x span.start) (htoken : tokenFrom x span.start = some span) :
    span ∈ ps.filterMap Piece.token? := by
  induction h with
  | done =>
    obtain ⟨-, hlt, hle'⟩ := tokenFrom_spec htoken
    omega
  | @byte pos b ps _ hnone _ ih =>
    refine ih (.byte hpos hnone) (lt_of_le_of_ne hle ?_)
    rintro rfl
    rw [hnone] at htoken
    cases htoken
  | @token pos first ps hsome _ ih =>
    obtain ⟨rfl, hlt, -⟩ := tokenFrom_spec hsome
    rcases eq_or_lt_of_le hle with heq | hlt'
    · rw [heq, htoken] at hsome
      cases hsome
      exact mem_cons_self
    · refine mem_cons_of_mem _ (ih (.token hpos hsome) ?_)
      have hout := hvisit.not_inside first (mem_replaced_iff.mpr ⟨hpos, hsome⟩)
      omega

theorem Reads.sorted (h : Reads x pos ps) :
    (ps.filterMap Piece.token?).Pairwise fun a b => a.start < b.start := by
  induction h with
  | done => exact .nil
  | byte _ _ _ ih => exact ih
  | token hsome hrest ih =>
    obtain ⟨rfl, hlt, -⟩ := tokenFrom_spec hsome
    exact pairwise_cons.mpr ⟨fun span hspan => hlt.trans_le (hrest.le_start hspan), ih⟩

/-- **The tokens among the pieces are the spans that are replaced.** -/
theorem pieces_tokens (x : Bytes) :
    (pieces x).filterMap Piece.token? = replaced (findAllSpans x) := by
  have hreplaced : (replaced (findAllSpans x)).Pairwise fun a b => a.start < b.start := by
    refine List.Pairwise.imp_of_mem (fun {a b} ha _ h => ?_) (replaced_apart fun _ h =>
      findAllSpans_lt h)
    have := findAllSpans_lt (mem_of_mem_replaced ha)
    omega
  have : Std.Irrefl fun a b : Span => a.start < b.start := ⟨fun a => lt_irrefl _⟩
  have : Std.Antisymm fun a b : Span => a.start < b.start :=
    ⟨fun a b h h' => absurd h (lt_asymm h')⟩
  refine List.Pairwise.eq_of_mem_iff (reads_pieces x).sorted hreplaced fun span => ?_
  rw [mem_replaced_iff]
  exact ⟨(reads_pieces x).token_mem .zero,
    fun h => (reads_pieces x).mem_token .zero (zero_le _) h.1 h.2⟩

/-- A byte before all spans is kept. -/
theorem splice_byte {spans : List Span} (hb : x[pos]? = some b)
    (hspans : ∀ span ∈ spans, pos < span.start) :
    splice x pos spans = b :: splice x (pos + 1) spans := by
  cases spans with
  | nil => rw [splice, splice, cons_drop hb]
  | cons span =>
    have hlt := hspans span mem_cons_self
    rw [splice, splice, slice_cons hb hlt]
    rfl

theorem Reads.splice_eq (h : Reads x pos ps) :
    splice x pos (ps.filterMap Piece.token?) = ps.flatMap Piece.written := by
  induction h with
  | done => exact drop_length
  | byte hb _ hrest ih =>
    rw [flatMap_cons, ← ih]
    exact splice_byte hb fun span hspan => hrest.le_start hspan
  | @token _ span ps hsome _ ih =>
    obtain ⟨rfl, -, -⟩ := tokenFrom_spec hsome
    have hnil : slice x span.start span.start = [] := by
      rw [slice, drop_take, Nat.sub_self, take_zero]
    show slice x span.start span.start ++ span.marker ++ splice x span.stop _ = _
    rw [ih, hnil, nil_append]
    rfl

/-- **Redaction writes the pieces.** -/
theorem redactPii_eq_pieces (x : Bytes) : redactPii x = (pieces x).flatMap Piece.written := by
  rw [redactPii, replaceSpans_eq_splice, ← pieces_tokens, (reads_pieces x).splice_eq]

/-! ### The tokens -/

theorem token_mem_pieces (h : Piece.token span ∈ pieces x) :
    Visits x span.start ∧ tokenFrom x span.start = some span :=
  (reads_pieces x).token_mem .zero (mem_filterMap.mpr ⟨_, h, rfl⟩)

theorem token_cases (h : Piece.token span ∈ pieces x) :
    (IsEmail x span.start span.stop ∧ span.marker = PiiKind.email.marker) ∨
      ∃ kind : PiiKind, IsNumber kind x span.start span.stop ∧ span.marker = kind.marker := by
  rcases mem_findAllSpans_iff.mp (tokenFrom_mem_findAllSpans (token_mem_pieces h).2).2 with
    hemail | ⟨kind, hnumber, hmarker, -⟩
  · exact .inl hemail
  · exact .inr ⟨kind, hnumber, hmarker⟩

/-- A token starts and ends with a byte of a word. -/
theorem tokenFrom_word (h : tokenFrom x pos = some span) :
    holdsAt isWordByte x pos = true ∧ holdsAt isWordByte x (span.stop - 1) = true := by
  obtain ⟨rfl, hmem⟩ := tokenFrom_mem_findAllSpans h
  rcases mem_findAllSpans_iff.mp hmem with ⟨hemail, -⟩ | ⟨kind, hnumber, -⟩
  · have hlt := hemail.run.lt
    exact ⟨hemail.run.all _ (le_refl _) hlt, hemail.run.all _ (by omega) (by omega)⟩
  · exact ⟨holdsAt_mono (fun _ => isWordByte_of_digit) hnumber.trimmed.first,
      holdsAt_mono (fun _ => isWordByte_of_digit) hnumber.trimmed.last⟩

theorem exists_marker (h : Piece.token span ∈ pieces x) :
    ∃ kind : PiiKind, span.marker = kind.marker := by
  rcases token_cases h with ⟨-, hmarker⟩ | ⟨kind, -, hmarker⟩
  · exact ⟨.email, hmarker⟩
  · exact ⟨kind, hmarker⟩

theorem marker_spec (kind : PiiKind) :
    kind.marker ≠ [] ∧ (∀ b ∈ kind.marker, isWordByte b = true) ∧
      (∀ b ∈ kind.marker, isTokenByte b = false) ∧ atSign ∉ kind.marker ∧ dot ∉ kind.marker := by
  cases kind <;> decide +kernel

end S4.Filters
