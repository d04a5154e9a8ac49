import S4.Filters.Pieces

/-!
# Filters — Stability

When nothing is found in a redacted text.  Three kinds of texts are redacted to a text in which the
scan finds something again:

* a number is written over inside a word, and the word with the marker is an address
  (`JoinedAddress`);
* an address is written over that cuts a run of digits, and what is left of the run is a number
  (`CutNumber`);
* a number lies behind the `@` of an address, so that the scan has jumped over it, but the address
  is not written (`HiddenNumber`).

There is no other kind: `redactPii_stable_iff`.
-/

namespace S4.Filters

open Lib List Piece Nat
open Records (Bytes)

variable {x : Bytes} {s e pos i : Nat} {kind : PiiKind} {span : Span} {A M B : List Piece}
  {p : Piece}

/-! ### Words and digits -/

/-- A valid word with an `@` inside. -/
def IsAddress (w : Bytes) : Prop :=
  (∃ i, 0 < i ∧ i + 1 < w.length ∧ w[i]? = some atSign) ∧ isValidEmail w = true

def HasNumber (w : Bytes) : Prop := ∃ kind s e, IsNumber kind w s e

theorem isEmail_iff_stretch :
    IsEmail x s e ↔ ∃ u w v, x = u ++ w ++ v ∧ s = u.length ∧ e = u.length + w.length ∧
      IsStretch isWordByte u w v ∧ IsAddress w := by
  constructor
  · rintro ⟨hrun, ⟨i, hs, he, hat⟩, hvalid⟩
    obtain ⟨u, w, v, rfl, rfl, rfl, hstretch⟩ := isRun_iff_stretch.mp hrun
    obtain ⟨k, rfl⟩ := Nat.exists_eq_add_of_lt hs
    rw [slice_left] at hvalid
    refine ⟨u, w, v, rfl, rfl, rfl, hstretch, ⟨k + 1, by omega, by omega, ?_⟩, hvalid⟩
    rwa [add_assoc, append_assoc, getElem?_append_right (by omega),
      Nat.add_sub_cancel_left, getElem?_append_left (by omega)] at hat
  · rintro ⟨u, w, v, rfl, rfl, rfl, hstretch, ⟨k, hk, hk', hat⟩, hvalid⟩
    refine ⟨hstretch.isRun, ⟨u.length + k, by omega, by omega, ?_⟩, by rwa [slice_left]⟩
    rwa [append_assoc, getElem?_append_right (by omega), Nat.add_sub_cancel_left,
      getElem?_append_left (by omega)]

theorem isNumber_stretch {u w v : Bytes} (h : IsStretch isTokenByte u w v) (he : e ≤ w.length) :
    IsNumber kind (u ++ w ++ v) (u.length + s) (u.length + e) ↔ IsNumber kind w s e := by
  constructor
  · rintro ⟨htrim, hvalid⟩
    rw [slice_stretch u v he] at hvalid
    exact ⟨(h.isTrimmed_iff he).mp htrim, hvalid⟩
  · rintro ⟨htrim, hvalid⟩
    refine ⟨(h.isTrimmed_iff he).mpr htrim, ?_⟩
    rwa [slice_stretch u v he]

theorem hasNumber_iff_stretch :
    HasNumber x ↔ ∃ u w v, x = u ++ w ++ v ∧ IsStretch isTokenByte u w v ∧ HasNumber w := by
  constructor
  · rintro ⟨kind, s, e, hnumber⟩
    have hlt := hnumber.trimmed.lt
    obtain ⟨l, r, hrun, hl, hr, hin⟩ := hnumber.trimmed.run
    obtain ⟨u, w, v, rfl, rfl, rfl, hstretch⟩ := isRun_iff_stretch.mp hrun
    obtain ⟨s', rfl⟩ := Nat.exists_eq_add_of_le hl
    obtain ⟨e', rfl⟩ := Nat.exists_eq_add_of_le (show u.length ≤ e by omega)
    exact ⟨u, w, v, rfl, hstretch, kind, s', e', (isNumber_stretch hstretch (by omega)).mp hnumber⟩
  · rintro ⟨u, w, v, rfl, hstretch, kind, s, e, hnumber⟩
    exact ⟨kind, _, _, (isNumber_stretch hstretch hnumber.trimmed.le_length).mpr hnumber⟩

/-- The scan finds nothing exactly in texts without addresses and numbers. -/
theorem findAllSpans_eq_nil_iff : findAllSpans x = [] ↔ (∀ s e, ¬ IsEmail x s e) ∧
    ¬ HasNumber x := by
  constructor
  · intro h
    have hemail : ∀ s e, ¬ IsEmail x s e := by
      intro s e hemail
      have := hemail.mem_findAllSpans
      rw [h] at this
      cases this
    refine ⟨hemail, ?_⟩
    rintro ⟨kind, s, e, hnumber⟩
    have := hnumber.mem_findAllSpans (by rintro ⟨s', e', a, h', -⟩; exact hemail s' e' h')
    rw [h] at this
    cases this
  · rintro ⟨hemail, hnumber⟩
    refine eq_nil_iff_forall_not_mem.mpr fun span hspan => ?_
    rcases mem_findAllSpans_iff.mp hspan with ⟨h, -⟩ | ⟨kind, h, -⟩
    · exact hemail _ _ h
    · exact hnumber ⟨kind, _, _, h⟩

/-! ### Pieces as words and digits -/

/-- A piece that does not end a word. -/
def Piece.isWord : Piece → Bool
  | .byte b => isWordByte b
  | .token _ => true

/-- A digit, space or dash that stays. -/
def Piece.isDigits : Piece → Bool
  | .byte b => isTokenByte b
  | .token _ => false

theorem uniform_isWord {x : Bytes} : Uniform written isWordByte isWord (pieces x) := by
  intro p hp
  cases p with
  | byte => exact ⟨by simp [written], by simp [written, isWord]⟩
  | token =>
    obtain ⟨kind, hmarker⟩ := exists_marker hp
    obtain ⟨hne, hword, -⟩ := marker_spec kind
    rw [written, hmarker]
    exact ⟨hne, hword⟩

theorem uniform_isDigits (x : Bytes) : Uniform written isTokenByte isDigits (pieces x) := by
  intro p hp
  cases p with
  | byte => exact ⟨by simp [written], by simp [written, isDigits]⟩
  | token =>
    obtain ⟨kind, hmarker⟩ := exists_marker hp
    obtain ⟨hne, -, htoken, -⟩ := marker_spec kind
    rw [written, hmarker]
    exact ⟨hne, htoken⟩

/-! ### Addresses in the redacted text -/

/-- A word with an `@` inside and a dot, of 254 bytes at most when a token is as long as its
marker. -/
def AddressLike (M : List Piece) : Prop :=
  (∃ L R, M = L ++ .byte atSign :: R ∧ L ≠ [] ∧ R ≠ []) ∧ Piece.byte dot ∈ M ∧
    (M.map fun p => p.written.length).sum ≤ 254

/-- A number is written over in a word that is like an address. -/
def JoinedAddress (x : Bytes) : Prop :=
  ∃ A M B, pieces x = A ++ M ++ B ∧ IsStretch isWord A M B ∧
    (∃ kind s e, IsNumber kind x s e ∧ token ⟨s, e, kind.marker⟩ ∈ M) ∧ AddressLike M

theorem eq_byte_of_mem_written {b : UInt8} (hp : p ∈ pieces x) (hb : b ∈ p.written)
    (hmarker : ∀ kind : PiiKind, b ∉ kind.marker) : p = .byte b := by
  cases p with
  | byte => rw [mem_singleton.mp hb]
  | token =>
    obtain ⟨kind, h⟩ := exists_marker hp
    rw [written, h] at hb
    exact absurd hb (hmarker kind)

/-- The markers add neither an `@` nor a dot. -/
theorem isAddress_written_iff (hM : ∀ p ∈ M, p ∈ pieces x) :
    IsAddress (M.flatMap written) ↔ AddressLike M := by
  have hne : ∀ N : List Piece, (∀ p ∈ N, p ∈ pieces x) → N ≠ [] → N.flatMap written ≠ [] := by
    intro N hN hne hnil
    obtain ⟨p, N, rfl⟩ := exists_cons_of_ne_nil hne
    exact (uniform_isWord p (hN p mem_cons_self)).1
      (append_eq_nil_iff.mp (flatMap_cons ▸ hnil)).1
  have hlength : (M.flatMap written).length = (M.map fun p => p.written.length).sum :=
    length_flatMap
  constructor
  · rintro ⟨⟨i, hi, hi', hat⟩, hvalid⟩
    simp only [isValidEmail, Bool.and_eq_true, contains_iff_mem, decide_eq_true_eq] at hvalid
    obtain ⟨⟨-, hdot⟩, hlen⟩ := hvalid
    refine ⟨?_, ?_, hlength ▸ hlen⟩
    · have hsplit := (take_append_drop i (M.flatMap written)).symm
      rw [← cons_drop hat] at hsplit
      obtain ⟨L, p, R, u, v, rfl, hp, hu, hv⟩ := exists_item hsplit
      have hbyte := eq_byte_of_mem_written (hM p (by simp)) (hp ▸ by simp) fun kind =>
        (marker_spec kind).2.2.2.1
      subst hbyte
      obtain ⟨rfl, rfl⟩ : u = [] ∧ v = [] := by
        have := congrArg length hp
        simp only [written, length_append, length_cons, length_nil] at this
        exact ⟨length_eq_zero_iff.mp (by omega), length_eq_zero_iff.mp (by omega)⟩
      refine ⟨L, R, rfl, ?_, ?_⟩
      · rintro rfl
        have := congrArg length hu
        rw [length_take, min_eq_left (by omega)] at this
        exact absurd this (ne_of_gt hi)
      · rintro rfl
        have := congrArg length hv
        rw [length_drop] at this
        exact absurd this (sub_ne_zero_of_lt hi')
    · obtain ⟨p, hp, hb⟩ := mem_flatMap.mp hdot
      exact eq_byte_of_mem_written (hM p hp) hb (fun kind => (marker_spec kind).2.2.2.2) ▸ hp
  · rintro ⟨⟨L, R, rfl, hL, hR⟩, hdot, hlen⟩
    have hL' := length_pos_iff.mpr (hne L (fun p hp => hM p (by simp [hp])) hL)
    have hR' := length_pos_iff.mpr (hne R (fun p hp => hM p (by simp [hp])) hR)
    refine ⟨⟨(L.flatMap written).length, hL', ?_, ?_⟩, ?_⟩
    · rw [flatMap_append, flatMap_cons, length_append, length_append, written,
        length_singleton]
      omega
    · simp [written]
    · simp only [isValidEmail, Bool.and_eq_true, contains_iff_mem, decide_eq_true_eq]
      refine ⟨⟨⟨?_, ?_⟩, mem_flatMap.mpr ⟨_, hdot, by simp [written]⟩⟩, hlength ▸ hlen⟩
      · simp [written]
      · simp [written]

theorem reads_split (h : pieces x = A ++ B) :
    Reads x (A.flatMap (text x)).length B ∧ Visits x (A.flatMap (text x)).length := by
  have hreads := reads_pieces x
  rw [h] at hreads
  have := hreads.visits .zero
  rwa [zero_add] at this

/-- Behind the piece a position follows, with the byte before it in the piece. -/
theorem Reads.cons_inv (h : Reads x pos (p :: B)) :
    ∃ next, Reads x next B ∧ pos < next ∧
      (p.isWord = true → holdsAt isWordByte x (next - 1) = true) := by
  cases h with
  | byte hb _ hrest =>
    refine ⟨pos + 1, hrest, lt_succ_self _, fun hword => ?_⟩
    rw [Nat.add_sub_cancel, holdsAt_of_getElem hb]
    exact hword
  | token hsome hrest =>
    obtain ⟨-, hlt, -⟩ := tokenFrom_spec hsome
    exact ⟨_, hrest, hlt, fun _ => (tokenFrom_word hsome).2⟩

/-- A piece of a word has a byte of a word in front. -/
theorem Reads.head_word (h : Reads x pos (p :: B)) (hword : p.isWord = true) :
    holdsAt isWordByte x pos = true := by
  cases h with
  | byte hb =>
    rw [holdsAt_of_getElem hb]
    exact hword
  | token hsome => exact (tokenFrom_word hsome).1

/-- An address that is written over is a word by itself. -/
theorem email_token_alone (h : pieces x = A ++ M ++ B) (hM : IsStretch isWord A M B)
    (hspan : token span ∈ M) (hemail : IsEmail x span.start span.stop) : M = [token span] := by
  obtain ⟨M₁, M₂, rfl⟩ := append_of_mem hspan
  have hsplit : pieces x = (A ++ M₁) ++ (.token span :: (M₂ ++ B)) := by
    rw [h]
    simp
  -- the next piece would start with the boundary byte behind the address
  have hright : M₂ = [] := by
    cases M₂ with
    | nil => rfl
    | cons p =>
      have hword := (reads_split hsplit).1.token_inv.2.head_word (hM.all p (by simp))
      rw [hemail.run.right] at hword
      cases hword
  have hleft : M₁ = [] := by
    cases hM₁ : M₁.getLast? with
    | none => exact getLast?_eq_none_iff.mp hM₁
    | some p =>
      obtain ⟨M₀, rfl⟩ := getLast?_eq_some_iff.mp hM₁
      have hsplit' : pieces x = (A ++ M₀) ++ (p :: (.token span :: (M₂ ++ B))) := by
        rw [hsplit]
        simp
      obtain ⟨next, hnext, hlt, hword⟩ := (reads_split hsplit').1.cons_inv
      obtain ⟨rfl, -, -⟩ := tokenFrom_spec hnext.token_inv.1
      have hboundary := hemail.run.left (span.start - 1) (by omega)
      rw [hword (hM.all p (by simp))] at hboundary
      cases hboundary
  rw [hleft, hright, nil_append]

/-- The text of pieces that are bytes is what is written. -/
theorem text_eq_written (h : ∀ span, token span ∉ M) : M.flatMap (text x) = M.flatMap written := by
  refine flatMap_congr fun p hp => ?_
  cases p with
  | byte => rfl
  | token span => exact absurd hp (h span)

/-- A stretch of bytes among the pieces is a stretch of the text, unless it has a token beside it.
-/
theorem stretch_text {p : UInt8 → Bool} {p' : Piece → Bool} (hp : ∀ b, p' (.byte b) = p b)
    (hM : IsStretch p' A M B) (hbytes : ∀ span, token span ∉ M)
    (hA : ∀ span, A.getLast? ≠ some (.token span)) (hB : ∀ span, B.head? ≠ some (.token span)) :
    IsStretch p (A.flatMap (text x)) (M.flatMap (text x)) (B.flatMap (text x)) := by
  refine ⟨?_, fun a ha => ?_, fun a ha => ?_, fun a ha => ?_⟩
  · obtain ⟨q, M', rfl⟩ := exists_cons_of_ne_nil hM.ne
    cases q with
    | byte => simp [text]
    | token span => exact absurd mem_cons_self (hbytes span)
  · obtain ⟨q, hq, ha⟩ := mem_flatMap.mp ha
    cases q with
    | byte =>
      rw [mem_singleton.mp ha, ← hp]
      exact hM.all _ hq
    | token span => exact absurd hq (hbytes span)
  · cases hlast : A.getLast? with
    | none =>
      rw [getLast?_eq_none_iff.mp hlast] at ha
      cases ha
    | some q =>
      cases q with
      | byte b =>
        rw [getLast?_flatMap hlast (by simp [text])] at ha
        obtain rfl : b = a := Option.some.inj ha
        rw [← hp]
        exact hM.left _ hlast
      | token span => exact absurd hlast (hA span)
  · cases hhead : B.head? with
    | none =>
      rw [head?_eq_none_iff.mp hhead] at ha
      cases ha
    | some q =>
      cases q with
      | byte b =>
        rw [head?_flatMap hhead (by simp [text])] at ha
        obtain rfl : b = a := Option.some.inj ha
        rw [← hp]
        exact hM.right _ hhead
      | token span => exact absurd hhead (hB span)

theorem text_split (h : pieces x = A ++ M ++ B) :
    x = A.flatMap (text x) ++ M.flatMap (text x) ++ B.flatMap (text x) := by
  conv_lhs => rw [← pieces_text x, h, flatMap_append, flatMap_append]

theorem holdsAt_text (h : pieces x = A ++ M ++ B) {p : UInt8 → Bool}
    (hi : i < (M.flatMap (text x)).length) :
    holdsAt p x ((A.flatMap (text x)).length + i) = holdsAt p (M.flatMap (text x)) i := by
  have hstretch := holdsAt_stretch p (A.flatMap (text x)) (B.flatMap (text x)) hi
  rwa [← text_split h] at hstretch

/-- A word without tokens among the pieces is no address: it would have been read as one. -/
theorem bytes_not_address (h : pieces x = A ++ M ++ B) (hM : IsStretch isWord A M B)
    (hbytes : ∀ span, token span ∉ M) : ¬ IsAddress (M.flatMap written) := by
  intro haddress
  have hstretch := stretch_text (x := x) (p := isWordByte) (fun _ => rfl) hM hbytes
    (fun span hlast => absurd (hM.left _ hlast) (by simp [isWord]))
    (fun span hhead => absurd (hM.right _ hhead) (by simp [isWord]))
  rw [← text_eq_written (x := x) hbytes] at haddress
  have hemail := isEmail_iff_stretch.mpr ⟨_, _, _, text_split h, rfl, rfl, hstretch, haddress⟩
  obtain ⟨q, M', rfl⟩ := exists_cons_of_ne_nil hM.ne
  cases q with
  | token span => exact hbytes span mem_cons_self
  | byte =>
    rw [append_assoc] at h
    have hnone := (reads_split h).1.byte_inv.2.1
    have hfrom : emailFrom x _ = some ⟨_, _, PiiKind.email.marker⟩ :=
      emailFrom_eq_some.mpr ⟨rfl, hemail, rfl⟩
    rw [tokenFrom, Option.or_eq_none_iff, hfrom] at hnone
    cases hnone.2

theorem no_email_iff : (∀ s e, ¬ IsEmail (redactPii x) s e) ↔ ¬ JoinedAddress x := by
  constructor
  · rintro h ⟨A, M, B, hpieces, hM, -, haddress⟩
    rw [← isAddress_written_iff (x := x) fun p hp => by rw [hpieces]; simp [hp]] at haddress
    refine h _ _ (isEmail_iff_stretch.mpr ⟨_, _, _, ?_, rfl, rfl, hM.flatMap ?_, haddress⟩)
    · rw [redactPii_eq_pieces, hpieces, flatMap_append, flatMap_append]
    · rw [← hpieces]
      exact uniform_isWord
  · intro h s e hemail
    obtain ⟨u, w, v, hflat, -, -, hstretch, haddress⟩ := isEmail_iff_stretch.mp hemail
    rw [redactPii_eq_pieces] at hflat
    obtain ⟨A, M, B, hpieces, -, rfl, -, hM⟩ := hstretch.of_flatMap uniform_isWord hflat
    by_cases hbytes : ∀ span, token span ∉ M
    · exact bytes_not_address hpieces hM hbytes haddress
    · rw [not_forall] at hbytes
      obtain ⟨span, hspan⟩ := hbytes
      rw [not_not] at hspan
      have hmem : token span ∈ pieces x := by
        rw [hpieces]
        simp [hspan]
      rcases token_cases hmem with ⟨hemail', hmarker⟩ | ⟨kind, hnumber, hmarker⟩
      · -- the marker has no `@`
        rw [email_token_alone hpieces hM hspan hemail'] at haddress
        obtain ⟨⟨i, -, -, hat⟩, -⟩ := haddress
        have := mem_of_getElem? hat
        rw [flatMap_singleton, written, hmarker] at this
        exact (marker_spec .email).2.2.2.1 this
      · refine h ⟨A, M, B, hpieces, hM, ⟨kind, span.start, span.stop, hnumber, ?_⟩, ?_⟩
        · rwa [← hmarker]
        · exact (isAddress_written_iff (x := x) fun p hp => by rw [hpieces]; simp [hp]).mp haddress

/-! ### Numbers in the redacted text -/

/-- An address is written over beside a run of digits, spaces and dashes that is a number. -/
def CutNumber (x : Bytes) : Prop :=
  ∃ A M B, pieces x = A ++ M ++ B ∧ IsStretch isDigits A M B ∧
    (∃ span, IsEmail x span.start span.stop ∧
      (A.getLast? = some (.token span) ∨ B.head? = some (.token span))) ∧
    HasNumber (M.flatMap (text x))

/-- A number in an address behind its `@`, which the reading comes to all the same. -/
def HiddenNumber (x : Bytes) : Prop :=
  ∃ kind s e, IsNumber kind x s e ∧ Behind x s e ∧ Visits x s

/-- No token starts on a number that lies in an address behind its `@`. -/
theorem tokenFrom_eq_none_of_behind (hnumber : IsNumber kind x s e) (hbehind : Behind x s e)
    (hs : s ≤ i) (he : i < e) : tokenFrom x i = none := by
  rw [Option.eq_none_iff_forall_ne_some]
  intro span hsome
  obtain ⟨rfl, hmem⟩ := tokenFrom_mem_findAllSpans hsome
  have hlt := findAllSpans_lt hmem
  rcases mem_findAllSpans_iff.mp hmem with ⟨hemail, -⟩ | ⟨kind', hnumber', -, hnot⟩
  · obtain ⟨s', e', a, hemail', -, hs', ha, he'⟩ := hbehind
    have := hemail.eq_of_mem hemail' (i := span.start) (le_refl _) hlt (by omega) (by omega)
    omega
  · obtain ⟨rfl, rfl, -⟩ := hnumber'.eq_of_mem hnumber (i := span.start) (le_refl _) hlt hs he
    exact hnot hbehind

/-- Where no token starts, the pieces are the bytes. -/
theorem Reads.bytes {n : Nat} {ps : List Piece} (h : Reads x pos ps)
    (hnone : ∀ i, pos ≤ i → i < pos + n → tokenFrom x i = none) (hn : pos + n ≤ x.length) :
    ∃ qs, ps = (slice x pos (pos + n)).map Piece.byte ++ qs := by
  induction n generalizing pos ps with
  | zero => exact ⟨ps, by simp [slice]⟩
  | succ n ih =>
    cases h with
    | done => omega
    | token hsome =>
      rw [hnone pos (le_refl _) (by omega)] at hsome
      cases hsome
    | @byte _ b ps hb _ hrest =>
      have hidx : pos + (n + 1) = pos + 1 + n := by omega
      obtain ⟨qs, rfl⟩ := ih hrest (fun i hi hi' => hnone i (by omega) (by omega)) (by omega)
      exact ⟨qs, by rw [hidx, slice_cons hb (by omega)]; rfl⟩

theorem not_token_of_isDigits (h : ∀ p ∈ M, p.isDigits = true) (span : Span) :
    token span ∉ M := fun hspan => absurd (h _ hspan) (by simp [isDigits])

/-- Pieces that are bytes are the bytes of their text. -/
theorem eq_map_text (h : ∀ span, token span ∉ M) : M = (M.flatMap (text x)).map Piece.byte := by
  induction M with
  | nil => rfl
  | cons p M ih =>
    cases p with
    | token span => exact absurd mem_cons_self (h span)
    | byte =>
      rw [flatMap_cons, map_append, ← ih fun span hspan => h span (mem_cons_of_mem _ hspan)]
      rfl

theorem bytes_text (x w : Bytes) : (w.map Piece.byte).flatMap (text x) = w := by
  induction w with
  | nil => rfl
  | cons b w ih => rw [map_cons, flatMap_cons, ih]; rfl

/-- The numbers of the redacted text are those of the stretches of digits that stay. -/
theorem hasNumber_redactPii_iff :
    HasNumber (redactPii x) ↔ ∃ A M B, pieces x = A ++ M ++ B ∧ IsStretch isDigits A M B ∧
      HasNumber (M.flatMap written) := by
  rw [hasNumber_iff_stretch, redactPii_eq_pieces]
  constructor
  · rintro ⟨u, w, v, hflat, hstretch, hnumber⟩
    obtain ⟨A, M, B, hpieces, -, rfl, -, hM⟩ := hstretch.of_flatMap (uniform_isDigits x) hflat
    exact ⟨A, M, B, hpieces, hM, hnumber⟩
  · rintro ⟨A, M, B, hpieces, hM, hnumber⟩
    have huniform := uniform_isDigits x
    rw [hpieces] at huniform ⊢
    exact ⟨_, _, _, by rw [flatMap_append, flatMap_append], hM.flatMap huniform, hnumber⟩

theorem isTokenByte_of_mem_text (hM : ∀ p ∈ M, p.isDigits = true) :
    ∀ a ∈ M.flatMap (text x), isTokenByte a = true := by
  intro a ha
  obtain ⟨p, hp, ha⟩ := mem_flatMap.mp ha
  cases p with
  | byte =>
    rw [mem_singleton.mp ha]
    exact hM _ hp
  | token span => exact absurd hp (not_token_of_isDigits hM span)

/-- A number of the text that is part of a block of bytes among the pieces is a number of the block.
-/
theorem IsNumber.of_block (h : pieces x = A ++ M ++ B) (hM : ∀ p ∈ M, p.isDigits = true)
    (hnumber : IsNumber kind x ((A.flatMap (text x)).length + s)
      ((A.flatMap (text x)).length + e))
    (he : e ≤ (M.flatMap (text x)).length) : IsNumber kind (M.flatMap (text x)) s e := by
  have hall := isTokenByte_of_mem_text (x := x) hM
  have hx := text_split h
  refine ⟨IsTrimmed.of_block (u := A.flatMap (text x)) (v := B.flatMap (text x)) hall he ?_, ?_⟩
  · rw [← hx]
    exact hnumber.trimmed
  · rw [← slice_stretch (A.flatMap (text x)) (B.flatMap (text x)) he, ← hx]
    exact hnumber.valid

/-- **A hidden number stays.**  Its bytes are pieces by themselves; what the redacted text has
around them are bytes of the same run. -/
theorem HiddenNumber.hasNumber (h : HiddenNumber x) : HasNumber (redactPii x) := by
  obtain ⟨kind, s, e, hnumber, hbehind, hvisit⟩ := h
  have hlt := hnumber.trimmed.lt
  have hle := hnumber.trimmed.le_length
  obtain ⟨A₀, B₀, hpieces, hA₀⟩ := (reads_pieces x).exists_split .zero (zero_le s) (by omega) hvisit
  rw [zero_add] at hA₀
  have hreads := (reads_split hpieces).1
  rw [hA₀] at hreads
  obtain ⟨B₁, rfl⟩ := hreads.bytes (n := e - s)
    (fun i hi hi' => tokenFrom_eq_none_of_behind hnumber hbehind hi (by omega)) (by omega)
  rw [add_sub_of_le (le_of_lt hlt)] at hpieces
  have hdigits : ∀ p ∈ (slice x s e).map Piece.byte, p.isDigits = true := by
    intro p hp
    obtain ⟨b, hb, rfl⟩ := mem_map.mp hp
    exact all_slice hnumber.trimmed.all b hb
  have hne : (slice x s e).map Piece.byte ≠ [] := by
    rw [← length_pos_iff, length_map, length_slice s hle]
    omega
  obtain ⟨A, l, r, B, rfl, rfl, hM⟩ := exists_stretch A₀ B₁ hne hdigits
  have hpieces' : pieces x = A ++ (l ++ (slice x s e).map Piece.byte ++ r) ++ B := by
    rw [hpieces]
    simp
  refine hasNumber_redactPii_iff.mpr ⟨_, _, _, hpieces', hM, kind, (l.flatMap (text x)).length,
    (l.flatMap (text x)).length + (e - s), ?_⟩
  rw [← text_eq_written (x := x) (not_token_of_isDigits hM.all)]
  rw [flatMap_append, length_append] at hA₀
  refine IsNumber.of_block hpieces' hM.all ?_ ?_
  · rw [← add_assoc, hA₀, add_sub_of_le (le_of_lt hlt)]
    exact hnumber
  · rw [flatMap_append, flatMap_append, bytes_text, length_append, length_append,
      length_slice s hle]
    omega

/-! #### Tokens beside a stretch -/

theorem length_text_of_last (h : pieces x = A ++ B) (hA : A.getLast? = some (.token span)) :
    (A.flatMap (text x)).length = span.stop := by
  obtain ⟨A', rfl⟩ := getLast?_eq_some_iff.mp hA
  rw [append_assoc] at h
  obtain ⟨hstart, hlt, hle⟩ := tokenFrom_spec (reads_split h).1.token_inv.1
  rw [flatMap_append, length_append, flatMap_singleton, text, length_slice _ hle]
  omega

theorem length_text_of_head (h : pieces x = A ++ B) (hB : B.head? = some (.token span)) :
    (A.flatMap (text x)).length = span.start := by
  obtain ⟨B', rfl⟩ := head?_eq_some_iff.mp hB
  exact (tokenFrom_spec (reads_split h).1.token_inv.1).1.symm

/-- A stretch of digits beside a number that is written over has no digit: it is on its run. -/
theorem number_not_beside (h : pieces x = A ++ M ++ B) (hM : IsStretch isDigits A M B)
    (hnumber : HasNumber (M.flatMap (text x))) (hspan : IsNumber kind x span.start span.stop) :
    A.getLast? ≠ some (.token span) ∧ B.head? ≠ some (.token span) := by
  obtain ⟨kind', s, e, hnumber⟩ := hnumber
  have hlt := hnumber.trimmed.lt
  have hle := hnumber.trimmed.le_length
  have hspan' := hspan.trimmed.lt
  have hself : IsStretch isTokenByte [] (M.flatMap (text x)) [] :=
    ⟨length_pos_iff.mp (by omega), isTokenByte_of_mem_text hM.all, by simp, by simp⟩
  have hall : ∀ i, (A.flatMap (text x)).length ≤ i →
      i < (A.flatMap (text x)).length + (M.flatMap (text x)).length →
      holdsAt isTokenByte x i = true := by
    intro i hi hi'
    obtain ⟨k, rfl⟩ := Nat.exists_eq_add_of_le hi
    rw [holdsAt_text h (by omega)]
    exact hself.isRun_self.all k (zero_le k) (by omega)
  have hdigit : holdsAt isAsciiDigit x ((A.flatMap (text x)).length + s) = true := by
    rw [holdsAt_text h (by omega)]
    exact hnumber.trimmed.first
  obtain ⟨l, r, hrun, hl, hr, hin⟩ := hspan.trimmed.run
  constructor
  · intro hA
    rw [append_assoc] at h
    have hstop := length_text_of_last h hA
    obtain ⟨-, hr'⟩ := hrun.subset (a := span.stop - 1)
      (b := span.stop + (M.flatMap (text x)).length) (fun i hi hi' => by
        rcases lt_or_ge i span.stop with hlt' | hge
        · exact hspan.trimmed.all i (by omega) hlt'
        · exact hall i (by omega) (by omega)) (i := span.stop - 1) (by omega) (by omega) (by omega)
      (by omega)
    have := hin _ (by omega) (by omega) hdigit
    omega
  · intro hB
    have hstart := length_text_of_head h hB
    rw [flatMap_append, length_append] at hstart
    obtain ⟨hl', -⟩ := hrun.subset (a := (A.flatMap (text x)).length) (b := span.start + 1)
      (fun i hi hi' => by
        rcases lt_or_ge i span.start with hlt' | hge
        · exact hall i hi (by omega)
        · exact hspan.trimmed.all i hge (by omega)) (i := span.start) (by omega) (by omega)
            (by omega)
      (by omega)
    have := hin _ (by omega) (by omega) hdigit
    omega

/-- A number among bytes that stay, without an address beside them, is hidden. -/
theorem hidden_of_stretch (h : pieces x = A ++ M ++ B) (hM : IsStretch isDigits A M B)
    (hnumber : HasNumber (M.flatMap (text x)))
    (hbeside : ∀ span, A.getLast? ≠ some (.token span) ∧ B.head? ≠ some (.token span)) :
    HiddenNumber x := by
  have hbytes := not_token_of_isDigits hM.all
  have hstretch := stretch_text (x := x) (p := isTokenByte) (fun _ => rfl) hM hbytes
    (fun span => (hbeside span).1) (fun span => (hbeside span).2)
  obtain ⟨kind, s, e, hnumber⟩ := hnumber
  have hlt := hnumber.trimmed.lt
  have hle := hnumber.trimmed.le_length
  have hnumber' := (isNumber_stretch hstretch hle).mpr hnumber
  rw [← text_split h] at hnumber'
  -- the first digit of the number is a piece
  obtain ⟨b, hb⟩ : ∃ b, (M.flatMap (text x))[s]? = some b :=
    ⟨_, getElem?_eq_getElem (by omega)⟩
  have hsplit : pieces x = (A ++ ((M.flatMap (text x)).take s).map Piece.byte) ++
      (Piece.byte b :: (((M.flatMap (text x)).drop (s + 1)).map Piece.byte ++ B)) := by
    have hM' : M = ((M.flatMap (text x)).take s).map Piece.byte ++
        (Piece.byte b :: ((M.flatMap (text x)).drop (s + 1)).map Piece.byte) := by
      conv_lhs => rw [eq_map_text (x := x) hbytes, ← take_append_drop s (M.flatMap (text x)),
        map_append, ← cons_drop hb, map_cons]
    conv_lhs => rw [h, hM']
    simp
  obtain ⟨hreads, hvisit⟩ := reads_split hsplit
  have hlen : ((A ++ ((M.flatMap (text x)).take s).map Piece.byte).flatMap (text x)).length =
      (A.flatMap (text x)).length + s := by
    rw [flatMap_append, bytes_text, length_append, length_take]
    omega
  rw [hlen] at hreads hvisit
  refine ⟨kind, _, _, hnumber', ?_, hvisit⟩
  by_contra hbehind
  have hfrom : numberFrom x _ = some ⟨_, _, kind.marker⟩ :=
    numberFrom_eq_some.mpr ⟨rfl, kind, hnumber', rfl, hbehind⟩
  have hnone := hreads.byte_inv.2.1
  rw [tokenFrom, hfrom, Option.some_or] at hnone
  cases hnone

theorem no_number_iff : ¬ HasNumber (redactPii x) ↔ ¬ CutNumber x ∧ ¬ HiddenNumber x := by
  constructor
  · intro h
    refine ⟨?_, fun hhidden => h hhidden.hasNumber⟩
    rintro ⟨A, M, B, hpieces, hM, -, hnumber⟩
    rw [text_eq_written (not_token_of_isDigits hM.all)] at hnumber
    exact h (hasNumber_redactPii_iff.mpr ⟨A, M, B, hpieces, hM, hnumber⟩)
  · rintro ⟨hcut, hhidden⟩ hnumber
    obtain ⟨A, M, B, hpieces, hM, hnumber⟩ := hasNumber_redactPii_iff.mp hnumber
    rw [← text_eq_written (x := x) (not_token_of_isDigits hM.all)] at hnumber
    refine hhidden (hidden_of_stretch hpieces hM hnumber fun span => ?_)
    have hmem : A.getLast? = some (.token span) ∨ B.head? = some (.token span) →
        token span ∈ pieces x := by
      rw [hpieces]
      rintro (hA | hB)
      · simp [mem_of_getLast? hA]
      · simp [mem_of_head? hB]
    rw [← not_or]
    intro hbeside
    rcases token_cases (hmem hbeside) with ⟨hemail, -⟩ | ⟨kind, hspan, -⟩
    · exact hcut ⟨A, M, B, hpieces, hM, ⟨span, hemail, hbeside⟩, hnumber⟩
    · obtain ⟨hA, hB⟩ := number_not_beside hpieces hM hnumber hspan
      exact hbeside.elim hA hB

/-- **When redaction is complete and stable.** -/
theorem redactPii_stable_iff (x : Bytes) :
    (findAllSpans (redactPii x) = [] ∧ redactPii (redactPii x) = redactPii x) ↔
      ¬ JoinedAddress x ∧ ¬ CutNumber x ∧ ¬ HiddenNumber x := by
  rw [← no_email_iff, ← no_number_iff, ← findAllSpans_eq_nil_iff]
  refine ⟨And.left, fun h => ⟨h, ?_⟩⟩
  rw [redactPii.eq_1 (redactPii x), h]
  rfl

/-- The card number is the local part, and its marker takes its place. -/
theorem marker_as_local_part_found :
    findAllSpans (redactPii (ascii "4111111111111111@x.y")) ≠ [] ∧
      redactPii (ascii "4111111111111111@x.y") = ascii "[REDACTED_CARD]@x.y" ∧
      redactPii (ascii "[REDACTED_CARD]@x.y") = ascii "[REDACTED_EMAIL]" := by
  decide +kernel

end S4.Filters
