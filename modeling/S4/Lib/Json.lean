import Mathlib

/-!
# Library — JSON texts

A validator of JSON texts in two parts: a lexer that reads bytes one at a time (`Mode.step`), and a
pushdown grammar over the lexemes (`accepts`).  A string is one lexeme without its contents, so that
texts that differ inside strings only are valid together.

A high surrogate escape has to be followed by a low one, as readers that build the string demand.
Two limits of a reader are parameters: which numbers it can represent, and how deep values may be
nested.
-/

namespace Lib.Json

open Option

abbrev Text : Type := List UInt8

inductive Lexeme where
  | beginObject
  | endObject
  | beginArray
  | endArray
  | colon
  | comma
  | str
  /-- A number or a literal. -/
  | bare (text : Text)
deriving DecidableEq

/-- Where the lexer is inside a string. -/
inductive StringMode where
  | plain
  /-- Behind a backslash; `low` says that the escape has to be a low surrogate. -/
  | escape (low : Bool)
  /-- In a `\u` escape with `left + 1` digits to come. -/
  | hex (left : Nat) (code : Nat) (low : Bool)
  /-- Behind a high surrogate. -/
  | pair
deriving DecidableEq

inductive Mode where
  | out
  /-- In a number or a literal, with its bytes so far. -/
  | bare (seen : Text)
  | str (mode : StringMode)
deriving DecidableEq

/-! ### Bytes -/

def quote : UInt8 := 0x22
def backslash : UInt8 := 0x5c

def isSpace (b : UInt8) : Bool := b == 0x20 || b == 0x09 || b == 0x0a || b == 0x0d

def isDigit (b : UInt8) : Bool := 0x30 ≤ b && b ≤ 0x39

/-- The letters, the digits, `+`, `-` and `.`. -/
def isBareByte (b : UInt8) : Bool :=
  isDigit b || b == 0x2b || b == 0x2d || b == 0x2e || (0x41 ≤ b && b ≤ 0x5a) ||
    (0x61 ≤ b && b ≤ 0x7a)

def hexValue? (b : UInt8) : Option Nat :=
  if isDigit b then some (b.toNat - 0x30)
  else if 0x41 ≤ b && b ≤ 0x46 then some (b.toNat - 0x37)
  else if 0x61 ≤ b && b ≤ 0x66 then some (b.toNat - 0x57)
  else none

/-- The bytes that may be escaped by a backslash alone: `"`, `\`, `/`, `b`, `f`, `n`, `r`, `t`. -/
def isEscapable (b : UInt8) : Bool :=
  b == quote || b == backslash || b == 0x2f || b == 0x62 || b == 0x66 || b == 0x6e || b == 0x72 ||
    b == 0x74

/-! ### The lexer -/

/-- The end of a `\u` escape. -/
def endHex (code : Nat) (low : Bool) : Option StringMode :=
  if low then
    if 0xdc00 ≤ code ∧ code ≤ 0xdfff then some .plain else none
  else if 0xd800 ≤ code ∧ code ≤ 0xdbff then some .pair
  else if 0xdc00 ≤ code ∧ code ≤ 0xdfff then none
  else some .plain

/-- One byte of a string that does not end it. -/
def StringMode.step (mode : StringMode) (b : UInt8) : Option StringMode :=
  match mode with
  | .plain =>
    if b == backslash then some (.escape false) else if b < 0x20 then none else some .plain
  | .escape low =>
    if b == 0x75 then some (.hex 3 0 low)
    else if !low && isEscapable b then some .plain
    else none
  | .hex left code low =>
    match hexValue? b with
    | none => none
    | some digit =>
      match left with
      | 0 => endHex (code * 16 + digit) low
      | left + 1 => some (.hex left (code * 16 + digit) low)
  | .pair => if b == backslash then some (.escape true) else none

def punctuation? (b : UInt8) : Option Lexeme :=
  if b == 0x7b then some .beginObject
  else if b == 0x7d then some .endObject
  else if b == 0x5b then some .beginArray
  else if b == 0x5d then some .endArray
  else if b == 0x3a then some .colon
  else if b == 0x2c then some .comma
  else none

/-- One byte between lexemes: the mode behind it, and the lexeme that it is. -/
def outStep (b : UInt8) : Option (Mode × List Lexeme) :=
  if isSpace b then some (.out, [])
  else if b == quote then some (.str .plain, [])
  else if isBareByte b then some (.bare [b], [])
  else (punctuation? b).map fun l => (.out, [l])

/-- One byte: the mode behind it, and the lexemes that end with it. -/
def Mode.step (mode : Mode) (b : UInt8) : Option (Mode × List Lexeme) :=
  match mode with
  | .out => outStep b
  | .bare seen =>
    if isBareByte b then some (.bare (seen ++ [b]), [])
    else (outStep b).map fun (mode, ls) => (mode, .bare seen :: ls)
  | .str inner =>
    if inner = .plain ∧ b = quote then some (.out, [.str])
    else (inner.step b).map fun inner => (.str inner, [])

/-- The lexemes that the end of the text ends. -/
def Mode.finish : Mode → Option (List Lexeme)
  | .out => some []
  | .bare seen => some [.bare seen]
  | .str _ => none

def lexFrom : Mode → Text → Option (List Lexeme)
  | mode, [] => mode.finish
  | mode, b :: bs => do
    let (mode, ls) ← mode.step b
    let rest ← lexFrom mode bs
    return ls ++ rest

def lex (text : Text) : Option (List Lexeme) := lexFrom .out text

/-! ### Numbers -/

def isExponent : Text → Bool
  | [] => true
  | e :: rest =>
    let digits := match rest with
      | [] => []
      | s :: rest' => if s == 0x2b || s == 0x2d then rest' else s :: rest'
    (e == 0x45 || e == 0x65) && !digits.isEmpty && digits.all isDigit

def isFraction : Text → Bool
  | [] => true
  | c :: rest =>
    if c == 0x2e then (rest.head?.any isDigit) && isExponent (rest.dropWhile isDigit)
    else isExponent (c :: rest)

/-- A number without its sign: a zero or digits that do not start with one, a fraction and an
exponent. -/
def isUnsigned : Text → Bool
  | [] => false
  | d :: rest =>
    if d == 0x30 then isFraction rest
    else isDigit d && isFraction (rest.dropWhile isDigit)

def isNumber : Text → Bool
  | [] => false
  | c :: rest => if c == 0x2d then isUnsigned rest else isUnsigned (c :: rest)

def isLiteral (text : Text) : Bool :=
  text == [0x74, 0x72, 0x75, 0x65] || text == [0x66, 0x61, 0x6c, 0x73, 0x65] ||
    text == [0x6e, 0x75, 0x6c, 0x6c]

/-! ### The grammar -/

/-- What the grammar expects. -/
inductive Expect where
  | value
  /-- Behind `[`. -/
  | firstElement
  /-- Behind `\x7b`. -/
  | firstKey
  | key
  | colon
  /-- Behind a value. -/
  | next
deriving DecidableEq

inductive Container where
  | object
  | array
deriving DecidableEq

/-- The limits of a reader. -/
structure Reader where
  inRange : Text → Bool
  maxDepth : Nat

/-- One lexeme: what is expected behind it, and the containers that are open. -/
def Reader.step (reader : Reader) (expect : Expect) (stack : List Container) (l : Lexeme) :
    Option (Expect × List Container) :=
  match expect, l with
  | .value, .beginObject | .firstElement, .beginObject =>
    if stack.length < reader.maxDepth then some (.firstKey, .object :: stack) else none
  | .value, .beginArray | .firstElement, .beginArray =>
    if stack.length < reader.maxDepth then some (.firstElement, .array :: stack) else none
  | .value, .str | .firstElement, .str => some (.next, stack)
  | .value, .bare text | .firstElement, .bare text =>
    if isLiteral text || (isNumber text && reader.inRange text) then some (.next, stack) else none
  | .firstElement, .endArray => some (.next, stack.tail)
  | .firstKey, .endObject => some (.next, stack.tail)
  | .firstKey, .str | .key, .str => some (.colon, stack)
  | .colon, .colon => some (.value, stack)
  | .next, .comma =>
    match stack with
    | [] => none
    | .object :: _ => some (.key, stack)
    | .array :: _ => some (.value, stack)
  | .next, .endObject =>
    match stack with
    | .object :: stack => some (.next, stack)
    | _ => none
  | .next, .endArray =>
    match stack with
    | .array :: stack => some (.next, stack)
    | _ => none
  | _, _ => none

def Reader.acceptsFrom (reader : Reader) : Expect → List Container → List Lexeme → Bool
  | expect, stack, [] => expect = .next ∧ stack = []
  | expect, stack, l :: ls =>
    match reader.step expect stack l with
    | none => false
    | some (expect, stack) => reader.acceptsFrom expect stack ls

/-- The text is one JSON value. -/
def Reader.isJson (reader : Reader) (text : Text) : Bool :=
  match lex text with
  | none => false
  | some ls => reader.acceptsFrom .value [] ls

/-! ### Parts of a text -/

variable {mode mode' : Mode} {inner : StringMode} {b : UInt8} {u v w w' : Text} {ls : List Lexeme}
  {r : Expect × List Container} {l : Lexeme} {ls : List Lexeme}

/-- The mode behind a part of a text, and the lexemes that end in it. -/
def lexPart : Mode → Text → Option (Mode × List Lexeme)
  | mode, [] => some (mode, [])
  | mode, b :: bs => do
    let (mode, ls) ← mode.step b
    let (mode, rest) ← lexPart mode bs
    return (mode, ls ++ rest)

def modeAfter (text : Text) : Option Mode := (lexPart .out text).map Prod.fst

/-- A number that the end of the text cuts is in range as far as it goes. -/
def Reader.tailInRange (reader : Reader) (text : Text) : Bool :=
  match modeAfter text with
  | some (.bare seen) => !isNumber seen || reader.inRange seen
  | _ => true

theorem lexPart_cons (mode : Mode) (b : UInt8) (w : Text) :
    lexPart mode (b :: w) =
      (mode.step b).bind fun r => (lexPart r.1 w).map fun r' => (r'.1, r.2 ++ r'.2) := by
  rw [lexPart]
  cases mode.step b with
  | none => rfl
  | some r => cases h : lexPart r.1 w <;> simp [h]

theorem lexFrom_cons (mode : Mode) (b : UInt8) (w : Text) :
    lexFrom mode (b :: w) = (mode.step b).bind fun r => (lexFrom r.1 w).map (r.2 ++ ·) := by
  rw [lexFrom]
  cases mode.step b with
  | none => rfl
  | some r => cases h : lexFrom r.1 w <;> simp [h]

theorem lexPart_append (mode : Mode) (u v : Text) :
    lexPart mode (u ++ v) = (lexPart mode u).bind fun r => (lexPart r.1 v).map fun r' =>
      (r'.1, r.2 ++ r'.2) := by
  induction u generalizing mode with
  | nil => simp [lexPart]
  | cons b u ih =>
    rw [List.cons_append, lexPart_cons, lexPart_cons]
    cases mode.step b with
    | none => rfl
    | some => simp [ih, bind_map, map_bind, Function.comp_def]

theorem lexFrom_append (mode : Mode) (u v : Text) :
    lexFrom mode (u ++ v) = (lexPart mode u).bind fun r => (lexFrom r.1 v).map (r.2 ++ ·) := by
  induction u generalizing mode with
  | nil => simp [lexPart]
  | cons b u ih =>
    rw [List.cons_append, lexFrom_cons, lexPart_cons]
    cases mode.step b with
    | none => rfl
    | some => simp [ih, bind_map, map_bind, Function.comp_def]

theorem modeAfter_append (h : modeAfter u = some mode) :
    modeAfter (u ++ v) = (lexPart mode v).map Prod.fst := by
  obtain ⟨r, hr, rfl⟩ := map_eq_some_iff.mp h
  rw [modeAfter, lexPart_append, hr, bind_some, map_map]
  rfl

/-- The lexer comes to the end of the text. -/
def Lexes (mode : Mode) (w : Text) : Prop := ∃ ls, lexFrom mode w = some ls

theorem lexes_append : Lexes mode (u ++ v) ↔ ∃ r, lexPart mode u = some r ∧ Lexes r.1 v := by
  simp only [Lexes, lexFrom_append, bind_eq_some_iff, map_eq_some_iff]
  constructor
  · rintro ⟨-, r, hr, ls, hls, -⟩
    exact ⟨r, hr, ls, hls⟩
  · rintro ⟨r, hr, ls, hls⟩
    exact ⟨r.2 ++ ls, r, hr, ls, hls, rfl⟩

theorem lexes_cons : Lexes mode (b :: w) ↔ ∃ r, mode.step b = some r ∧ Lexes r.1 w := by
  simp only [Lexes, lexFrom_cons, bind_eq_some_iff, map_eq_some_iff]
  constructor
  · rintro ⟨-, r, hr, ls, hls, -⟩
    exact ⟨r, hr, ls, hls⟩
  · rintro ⟨r, hr, ls, hls⟩
    exact ⟨r.2 ++ ls, r, hr, ls, hls, rfl⟩

theorem lexes_of_isJson {reader : Reader} (h : reader.isJson w = true) : Lexes .out w := by
  rw [Reader.isJson] at h
  split at h
  · cases h
  · next ls hls => exact ⟨ls, hls⟩

theorem not_lexes_string_nil : ¬ Lexes (.str inner) [] := by
  rintro ⟨ls, h⟩
  cases h

/-! ### Outside of strings -/

def Mode.isOut : Mode → Bool
  | .str _ => false
  | _ => true

/-- A byte that is in no lexeme but a string. -/
def isStray (b : UInt8) : Bool :=
  !isSpace b && b != quote && !isBareByte b && (punctuation? b).isNone

theorem outStep_stray (h : isStray b = true) : outStep b = none := by
  simp only [isStray, Bool.and_eq_true, Bool.not_eq_true', bne_iff_ne, isNone_iff_eq_none] at h
  obtain ⟨⟨⟨hspace, hquote⟩, hbare⟩, hpunct⟩ := h
  simp [outStep, hspace, hquote, hbare, hpunct]

theorem step_stray (hm : mode.isOut = true) (h : isStray b = true) : mode.step b = none := by
  have hbare : isBareByte b = false := by
    simp only [isStray, Bool.and_eq_true, Bool.not_eq_true'] at h
    exact h.1.2
  cases mode with
  | out => exact outStep_stray h
  | bare => simp [Mode.step, hbare, outStep_stray h]
  | str => cases hm

theorem step_quote (hm : mode.isOut = true) : ∃ ls, mode.step quote = some (.str .plain, ls) := by
  cases mode with
  | out => exact ⟨[], rfl⟩
  | bare seen => exact ⟨[.bare seen], rfl⟩
  | str => cases hm

theorem outStep_isOut (hb : b ≠ quote) (h : outStep b = some (mode, ls)) : mode.isOut = true := by
  rw [outStep] at h
  split at h
  · cases h
    rfl
  · rw [if_neg (by simpa using hb)] at h
    split at h
    · cases h
      rfl
    · obtain ⟨l, -, hl⟩ := map_eq_some_iff.mp h
      cases hl
      rfl

theorem step_isOut (hm : mode.isOut = true) (hb : b ≠ quote) (h : mode.step b = some (mode', ls)) :
    mode'.isOut = true := by
  cases mode with
  | out => exact outStep_isOut hb h
  | bare =>
    rw [Mode.step] at h
    split at h
    · cases h
      rfl
    · obtain ⟨r, hr, hl⟩ := map_eq_some_iff.mp h
      cases hl
      exact outStep_isOut hb hr
  | str => cases hm

theorem lexPart_isOut (hm : mode.isOut = true) (hw : quote ∉ w)
    (h : lexPart mode w = some (mode', ls)) : mode'.isOut = true := by
  induction w generalizing mode ls with
  | nil =>
    cases h
    exact hm
  | cons b w ih =>
    rw [List.mem_cons, not_or] at hw
    rw [lexPart_cons] at h
    obtain ⟨r, hr, h⟩ := bind_eq_some_iff.mp h
    obtain ⟨r', hr', h⟩ := map_eq_some_iff.mp h
    cases h
    exact ih (step_isOut hm (Ne.symm hw.1) hr) hw.2 hr'

theorem lexPart_stray (hm : mode.isOut = true) (hw : quote ∉ w) (hb : b ∈ w)
    (h : isStray b = true) : lexPart mode w = none := by
  obtain ⟨u, v, rfl⟩ := List.append_of_mem hb
  rw [List.mem_append, not_or] at hw
  rw [lexPart_append]
  cases hu : lexPart mode u with
  | none => rfl
  | some =>
    rw [bind_some, lexPart_cons, step_stray (lexPart_isOut hm hw.1 hu) h]
    rfl

/-! ### Inside of strings -/

/-- A byte that stands for itself in a string. -/
def isSafe (b : UInt8) : Bool := b != quote && b != backslash && 0x20 ≤ b

theorem step_safe (h : isSafe b = true) : (Mode.str .plain).step b = some (.str .plain, []) := by
  simp only [isSafe, Bool.and_eq_true, bne_iff_ne, decide_eq_true_eq] at h
  obtain ⟨⟨hquote, hback⟩, hle⟩ := h
  simp [Mode.step, StringMode.step, hquote, hback, UInt8.not_lt.mpr hle]

theorem lexPart_safe (h : ∀ b ∈ w, isSafe b = true) :
    lexPart (.str .plain) w = some (.str .plain, []) := by
  induction w with
  | nil => rfl
  | cons b w ih =>
    rw [lexPart_cons, step_safe (h b List.mem_cons_self), bind_some,
      ih fun b' hb' => h b' (List.mem_cons_of_mem b hb')]
    rfl

/-- One byte read inside and outside of a string: a quote exchanges the two, and nothing else does.
-/
theorem step_exchange {r r' : Mode × List Lexeme} (hm : mode.isOut = true)
    (h : (Mode.str .plain).step b = some r) (h' : mode.step b = some r') :
    (r.1 = .str .plain ∧ r'.1.isOut = true) ∨ (r.1 = .out ∧ r'.1 = .str .plain) := by
  by_cases hquote : b = quote
  · subst hquote
    obtain ⟨ls, hstep⟩ := step_quote hm
    rw [hstep] at h'
    cases h
    cases h'
    exact .inr ⟨rfl, rfl⟩
  · refine .inl ⟨?_, step_isOut hm hquote h'⟩
    rw [Mode.step, if_neg fun hend => hquote hend.2, StringMode.step] at h
    split at h
    · next hback =>
      rw [beq_iff_eq.mp hback, step_stray hm (by decide)] at h'
      cases h'
    · split at h
      · cases h
      · cases h
        rfl

/-- A text without quotes does not end a string. -/
theorem lexPart_inside (hw : quote ∉ w) (h : lexPart (.str inner) w = some (mode, ls)) :
    (∃ inner', mode = .str inner') ∧ ls = [] := by
  induction w generalizing inner ls with
  | nil =>
    cases h
    exact ⟨⟨inner, rfl⟩, rfl⟩
  | cons b w ih =>
    rw [List.mem_cons, not_or] at hw
    rw [lexPart_cons, Mode.step, if_neg fun hend => hw.1 hend.2.symm] at h
    obtain ⟨r, hr, h⟩ := bind_eq_some_iff.mp h
    obtain ⟨inner', -, rfl⟩ := map_eq_some_iff.mp hr
    obtain ⟨r', hr', h⟩ := map_eq_some_iff.mp h
    cases h
    obtain ⟨hmode, hls⟩ := ih hw.2 hr'
    exact ⟨hmode, by rw [hls]; rfl⟩

/-! ### Lexer and grammar together -/

/-- What is known of a text behind a part of it. -/
structure State where
  mode : Mode
  expect : Expect
  stack : List Container
deriving DecidableEq

namespace Reader

variable {reader : Reader} {expect expect' : Expect} {stack stack' : List Container} {seen : Text}

def run (reader : Reader) : Expect → List Container → List Lexeme → Option (Expect × List Container)
  | expect, stack, [] => some (expect, stack)
  | expect, stack, l :: ls => (reader.step expect stack l).bind fun r => reader.run r.1 r.2 ls

theorem acceptsFrom_append (ls ls' : List Lexeme) :
    reader.acceptsFrom expect stack (ls ++ ls') =
      (reader.run expect stack ls).any fun r => reader.acceptsFrom r.1 r.2 ls' := by
  induction ls generalizing expect stack with
  | nil => rfl
  | cons l ls ih =>
    rw [List.cons_append, acceptsFrom, run]
    cases reader.step expect stack l with
    | none => rfl
    | some => exact ih

def read (reader : Reader) (s : State) (b : UInt8) : Option State :=
  (s.mode.step b).bind fun r =>
    (reader.run s.expect s.stack r.2).map fun r' => ⟨r.1, r'.1, r'.2⟩

def feed (reader : Reader) : State → Text → Option State
  | s, [] => some s
  | s, b :: w => (reader.read s b).bind fun s' => reader.feed s' w

/-- The rest of a text ends a JSON value. -/
def accepts (reader : Reader) (s : State) (w : Text) : Bool :=
  (lexFrom s.mode w).any (reader.acceptsFrom s.expect s.stack)

theorem isJson_eq (w : Text) : reader.isJson w = reader.accepts ⟨.out, .value, []⟩ w := by
  rw [isJson, accepts, lex]
  cases lexFrom .out w <;> rfl

theorem accepts_cons (s : State) (b : UInt8) (w : Text) :
    reader.accepts s (b :: w) = (reader.read s b).any (reader.accepts · w) := by
  rw [accepts, lexFrom_cons, read]
  cases s.mode.step b with
  | none => rfl
  | some r =>
    rw [bind_some, bind_some]
    cases hlex : lexFrom r.1 w with
    | none => cases reader.run s.expect s.stack r.2 <;> simp [accepts, hlex]
    | some =>
      rw [map_some, any_some, acceptsFrom_append]
      cases reader.run s.expect s.stack r.2 <;> simp [accepts, hlex]

theorem accepts_append (s : State) (u w : Text) :
    reader.accepts s (u ++ w) = (reader.feed s u).any (reader.accepts · w) := by
  induction u generalizing s with
  | nil => rfl
  | cons b u ih =>
    rw [List.cons_append, accepts_cons, feed]
    cases reader.read s b with
    | none => rfl
    | some s' => exact ih s'

theorem feed_append (s : State) (u w : Text) :
    reader.feed s (u ++ w) = (reader.feed s u).bind (reader.feed · w) := by
  induction u generalizing s with
  | nil => rfl
  | cons b u ih =>
    rw [List.cons_append, feed, feed]
    cases reader.read s b with
    | none => rfl
    | some s' => exact ih s'

/-- Behind a value no number or literal follows. -/
theorem accepts_bare_next (seen : Text) (w : Text) :
    reader.accepts ⟨.bare seen, .next, stack⟩ w = false := by
  induction w generalizing seen with
  | nil => rfl
  | cons b w ih =>
    rw [accepts_cons, read, Mode.step]
    split
    · exact ih (seen ++ [b])
    · cases outStep b <;> rfl

/-- A byte that ends a number or literal. -/
theorem read_bare {b : UInt8} (hb : isBareByte b = false) :
    reader.read ⟨.bare seen, expect, stack⟩ b =
      (reader.step expect stack (.bare seen)).bind fun r => reader.read ⟨.out, r.1, r.2⟩ b := by
  simp only [read, Mode.step, hb, Bool.false_eq_true, if_false]
  cases houtStep : outStep b with
  | none => cases reader.step expect stack (.bare seen) <;> rfl
  | some =>
    simp only [map_some, bind_some, run]
    cases reader.step expect stack (.bare seen) <;> rfl

theorem accepts_bare_nil :
    reader.accepts ⟨.bare seen, expect, stack⟩ [] =
      (reader.step expect stack (.bare seen)).any fun r => reader.accepts ⟨.out, r.1, r.2⟩ [] := by
  simp only [accepts, lexFrom, Mode.finish, any_some, acceptsFrom]
  cases reader.step expect stack (.bare seen) <;> rfl

/-- Behind a number or literal that has ended. -/
theorem accepts_bare (h : ∀ b, w.head? = some b → isBareByte b = false) :
    reader.accepts ⟨.bare seen, expect, stack⟩ w =
      (reader.step expect stack (.bare seen)).any fun r => reader.accepts ⟨.out, r.1, r.2⟩ w := by
  cases w with
  | nil => exact accepts_bare_nil
  | cons b =>
    rw [accepts_cons, read_bare (h b rfl)]
    cases reader.step expect stack (.bare seen) with
    | none => rfl
    | some => rw [bind_some, any_some, accepts_cons]

theorem step_bare (h : reader.step expect stack (.bare seen) = some r) :
    (expect = .value ∨ expect = .firstElement) ∧ r = (.next, stack) := by
  cases expect
  case value | firstElement =>
    obtain ⟨-, h⟩ := ite_none_right_eq_some.mp h
    cases h
    simp
  all_goals cases h

theorem step_beginObject (h : reader.step expect stack .beginObject = some r) :
    (expect = .value ∨ expect = .firstElement) ∧ stack.length < reader.maxDepth ∧
      r = (.firstKey, .object :: stack) := by
  cases expect
  case value | firstElement =>
    obtain ⟨hdepth, h⟩ := ite_none_right_eq_some.mp h
    cases h
    simp [hdepth]
  all_goals cases h

theorem step_beginObject_of (h : expect = .value ∨ expect = .firstElement)
    (hdepth : stack.length < reader.maxDepth) :
    reader.step expect stack .beginObject = some (.firstKey, .object :: stack) := by
  rcases h with rfl | rfl <;> exact if_pos hdepth

theorem read_punctuation {b : UInt8} (h : outStep b = some (.out, [l])) :
    reader.read ⟨.out, expect, stack⟩ b =
      (reader.step expect stack l).map fun r => ⟨.out, r.1, r.2⟩ := by
  simp only [read, Mode.step, h, bind_some, run]
  cases reader.step expect stack l <;> rfl

theorem feed_safe (h : ∀ b ∈ w, isSafe b = true) :
    reader.feed ⟨.str .plain, expect, stack⟩ w = some ⟨.str .plain, expect, stack⟩ := by
  induction w with
  | nil => rfl
  | cons b w ih =>
    rw [feed, read, step_safe (h b List.mem_cons_self)]
    exact ih fun b' hb' => h b' (List.mem_cons_of_mem b hb')

/-- A string without escapes is one lexeme. -/
theorem feed_string (h : ∀ b ∈ w, isSafe b = true) :
    reader.feed ⟨.out, expect, stack⟩ (quote :: (w ++ [quote])) =
      (reader.step expect stack .str).map fun r => ⟨.out, r.1, r.2⟩ := by
  have hopen : reader.read ⟨.out, expect, stack⟩ quote = some ⟨.str .plain, expect, stack⟩ := rfl
  have hclose : reader.read ⟨.str .plain, expect, stack⟩ quote =
      (reader.step expect stack .str).map fun r => ⟨.out, r.1, r.2⟩ := by
    rw [read, Mode.step, if_pos ⟨rfl, rfl⟩, bind_some, run]
    cases reader.step expect stack .str <;> rfl
  rw [feed, hopen, bind_some, feed_append, feed_safe h, bind_some, feed, hclose]
  cases reader.step expect stack .str <;> rfl

theorem accepts_of_lexPart {s : State} (h : lexPart s.mode u = none) :
    reader.accepts s (u ++ w) = false := by
  rw [accepts, lexFrom_append, h]
  rfl

/-! ### Texts one behind the other -/

/-- The text is one number or literal. -/
def isScalar (reader : Reader) (text : Text) : Bool :=
  match lex text with
  | some [.bare n] => isLiteral n || (isNumber n && reader.inRange n)
  | _ => false

/-- Outside of containers nothing comes behind a value. -/
theorem step_outer
    (h : reader.step expect stack l = some r)
    (hin : stack = [] → expect = .value ∨ expect = .next) :
    r.2 = [] → r.1 = .next := by
  cases stack with
  | nil =>
    rcases hin rfl with rfl | rfl
    · cases l <;> simp only [step] at h <;> repeat' split at h
      all_goals cases h
      all_goals simp
    · cases l <;> cases h
  | cons =>
    cases expect <;> cases l <;> simp only [step] at h <;> repeat' split at h
    all_goals cases h
    all_goals simp

theorem run_outer (hin : stack = [] → expect = .next)
    (h : reader.run expect stack ls = some (expect', [])) : expect' = .next := by
  induction ls generalizing expect stack with
  | nil =>
    cases h
    exact hin rfl
  | cons l ls ih =>
    obtain ⟨r, hr, hrest⟩ := bind_eq_some_iff.mp h
    exact ih (step_outer hr fun hnil => .inr (hin hnil)) hrest

/-- Only the front of a text expects a value outside of containers. -/
theorem run_value_nil (h : reader.run .value [] ls = some (expect, []))
    (hne : expect ≠ .next) : ls = [] := by
  cases ls with
  | nil => rfl
  | cons =>
    obtain ⟨r, hr, hrest⟩ := bind_eq_some_iff.mp h
    exact absurd (run_outer (step_outer hr fun _ => .inl rfl) hrest) hne

theorem acceptsFrom_next_nil : reader.acceptsFrom .next [] ls = true ↔
    ls = [] := by
  cases ls with
  | nil => simp [acceptsFrom]
  | cons l =>
    have hstep : reader.step .next [] l = none := by cases l <;> rfl
    simp [acceptsFrom, hstep]

/-- A number or literal comes first of the lexemes that it is in front of. -/
theorem lexFrom_bare (h : lexFrom (.bare seen) w = some ls) :
    ∃ n ls', ls = .bare n :: ls' := by
  induction w generalizing seen ls with
  | nil =>
    cases h
    exact ⟨seen, [], rfl⟩
  | cons b w ih =>
    rw [lexFrom_cons, Mode.step] at h
    obtain ⟨r, hr, h⟩ := bind_eq_some_iff.mp h
    obtain ⟨ls', hls', rfl⟩ := map_eq_some_iff.mp h
    split at hr
    · cases hr
      exact ih hls'
    · obtain ⟨r', -, rfl⟩ := map_eq_some_iff.mp hr
      exact ⟨seen, _, rfl⟩

theorem acceptsFrom_bare
    (h : reader.acceptsFrom expect stack (.bare seen :: ls) = true) :
    (reader.step expect stack (.bare seen)).isSome = true ∧ reader.acceptsFrom .next stack ls =
    true := by
  rw [acceptsFrom] at h
  cases hstep : reader.step expect stack (.bare seen) with
  | none => simp [hstep] at h
  | some =>
    obtain ⟨-, rfl⟩ := step_bare hstep
    rw [hstep] at h
    exact ⟨rfl, h⟩

theorem acceptsFrom_bare_nil (h : reader.acceptsFrom expect stack [.bare seen] = true) :
    (expect = .value ∨ expect = .firstElement) ∧ stack = [] := by
  obtain ⟨hstep, hnil⟩ := acceptsFrom_bare h
  obtain ⟨r, hr⟩ := isSome_iff_exists.mp hstep
  exact ⟨(step_bare hr).1, by simpa [acceptsFrom] using hnil⟩

theorem isScalar_iff : reader.isScalar w = true ↔
    ∃ n, lex w = some [.bare n] ∧ (reader.step .value [] (.bare n)).isSome = true := by
  rw [isScalar]
  split
  · next n hlex =>
    simp only [hlex, step, some.injEq, List.cons.injEq, Lexeme.bare.injEq, and_true,
      exists_eq_left']
    split <;> simp_all
  · next hne =>
    simp only [Bool.false_eq_true, false_iff, not_exists, not_and]
    intro n hlex
    exact absurd hlex (hne n)

theorem isJson_iff : reader.isJson w = true ↔
    ∃ ls, lex w = some ls ∧ reader.acceptsFrom .value [] ls = true := by
  rw [isJson]
  cases lex w <;> simp

/-- A JSON text in front of more text: where the lexer and the grammar are behind it. -/
theorem isJson_append (hw : reader.isJson w = true) (h : reader.isJson (w ++ w') = true) :
    ∃ mode ls ls' fin r, lexPart .out w = some (mode, ls) ∧ lexFrom mode w' = some ls' ∧
      mode.finish = some fin ∧ lex (w ++ w') = some (ls ++ ls') ∧
      reader.run .value [] ls = some r ∧ reader.acceptsFrom r.1 r.2 fin = true ∧
      reader.acceptsFrom r.1 r.2 ls' = true := by
  obtain ⟨all, hall, hok⟩ := isJson_iff.mp h
  obtain ⟨own, hown, hok'⟩ := isJson_iff.mp hw
  have hlex := hall
  rw [lex, lexFrom_append] at hall
  rw [lex, ← List.append_nil w, lexFrom_append] at hown
  obtain ⟨⟨mode, ls⟩, hpart, hall⟩ := bind_eq_some_iff.mp hall
  obtain ⟨ls', hls', rfl⟩ := map_eq_some_iff.mp hall
  rw [hpart, bind_some] at hown
  obtain ⟨fin, hfin, rfl⟩ := map_eq_some_iff.mp hown
  rw [acceptsFrom_append] at hok hok'
  cases hrun : reader.run .value [] ls with
  | none => simp [hrun] at hok
  | some r =>
    rw [hrun, any_some] at hok hok'
    exact ⟨mode, ls, ls', fin, r, hpart, hls', hfin, hlex, hrun, hok', hok⟩

/-- A JSON text has a lexeme, wherever it is read between lexemes. -/
theorem lexFrom_out_ne_nil (hw : reader.isJson w = true) : lexFrom .out (w ++ w') ≠ some [] := by
  intro h
  obtain ⟨own, hown, hok⟩ := isJson_iff.mp hw
  rw [lexFrom_append] at h
  rw [lex, ← List.append_nil w, lexFrom_append] at hown
  obtain ⟨⟨mode, ls⟩, hpart, h⟩ := bind_eq_some_iff.mp h
  obtain ⟨ls', hls', hnil⟩ := map_eq_some_iff.mp h
  obtain ⟨rfl, rfl⟩ := List.append_eq_nil_iff.mp hnil
  rw [hpart, bind_some] at hown
  obtain ⟨fin, hfin, rfl⟩ := map_eq_some_iff.mp hown
  cases mode with
  | out =>
    cases hfin
    cases hok
  | bare =>
    obtain ⟨n, ls', hls⟩ := lexFrom_bare hls'
    cases hls
  | str => cases hfin

/-- **JSON texts one behind the other are a JSON text** only if there is one of them, or if they
join to one number. -/
theorem isJson_flatten_iff {docs : List Text} (hne : docs ≠ [])
    (h : ∀ doc ∈ docs, reader.isJson doc = true) :
    reader.isJson docs.flatten = true ↔ docs.length = 1 ∨ reader.isScalar docs.flatten = true := by
  constructor
  · intro hall
    obtain ⟨doc, docs, rfl⟩ := List.exists_cons_of_ne_nil hne
    cases docs with
    | nil => exact .inl rfl
    | cons next =>
      rw [List.flatten_cons] at hall
      obtain ⟨mode, ls, ls', fin, ⟨expect, stack⟩, -, hls', hfin, hlex, hrun, hfinish, hok⟩ :=
        isJson_append (h doc List.mem_cons_self) hall
      cases mode with
      | str => cases hfin
      | out =>
        -- the first text has ended, and a lexeme follows
        exfalso
        cases hfin
        obtain ⟨rfl, rfl⟩ : expect = .next ∧ stack = [] := by simpa [acceptsFrom] using hfinish
        rw [acceptsFrom_next_nil.mp hok, List.flatten_cons] at hls'
        exact lexFrom_out_ne_nil (h next (by simp)) hls'
      | bare =>
        cases hfin
        obtain ⟨hexpect, rfl⟩ := acceptsFrom_bare_nil hfinish
        obtain rfl : ls = [] := run_value_nil hrun (by rcases hexpect with rfl | rfl <;> simp)
        cases hrun
        obtain ⟨n, ls'', rfl⟩ := lexFrom_bare hls'
        obtain ⟨hstep, hok⟩ := acceptsFrom_bare hok
        rw [acceptsFrom_next_nil.mp hok] at hlex
        exact .inr (isScalar_iff.mpr ⟨n, hlex, hstep⟩)
  · rintro (hone | hscalar)
    · obtain ⟨doc, rfl⟩ := List.length_eq_one_iff.mp hone
      rw [List.flatten_singleton]
      exact h doc List.mem_cons_self
    · obtain ⟨n, hlex, hstep⟩ := isScalar_iff.mp hscalar
      refine isJson_iff.mpr ⟨_, hlex, ?_⟩
      obtain ⟨r, hr⟩ := isSome_iff_exists.mp hstep
      obtain ⟨-, rfl⟩ := step_bare hr
      simp [acceptsFrom, hr]

end Reader

end Lib.Json
