import S4.Lib.Runs
import S4.Lib.Text
import S4.Records.Decoder

/-!
# Filters — Pii

The detection and redaction of personal data that the filters share (`pii-shared`).  A text is its
bytes; the scan goes over them from left to right, finds email addresses around an `@`, and card and
social security numbers around a digit, and goes on behind what it has found.  `replaceSpans` writes
a marker over every span that does not overlap one already written.

The scanned offsets lie next to ASCII bytes, so that no slice of the source cuts a character, and a
character that is tested is ASCII wherever the test can succeed: the bytes say the same.
-/

namespace S4.Filters

open Lib
open Records (Bytes)

inductive PiiKind where
  | email
  | card
  | ssn
deriving DecidableEq

def PiiKind.marker : PiiKind → Bytes
  | .email => ascii "[REDACTED_EMAIL]"
  | .card => ascii "[REDACTED_CARD]"
  | .ssn => ascii "[REDACTED_SSN]"

@[ext]
structure Span where
  start : Nat
  stop : Nat
  marker : Bytes
deriving DecidableEq

def atSign : UInt8 := 0x40
def dot : UInt8 := 0x2e
def space : UInt8 := 0x20
def dash : UInt8 := 0x2d

/-! ### Validity -/

def isValidEmail (s : Bytes) : Bool :=
  !s.isEmpty && s.contains atSign && s.contains dot && s.length ≤ 254

def digitValue (b : UInt8) : Nat := b.toNat - 0x30

/-- The sum of the digits from the right, every second one doubled. -/
def luhnCheck (s : Bytes) : Bool :=
  let digits := s.reverse.zipIdx.map fun (b, i) =>
    if i % 2 = 1 then
      let doubled := digitValue b * 2
      if doubled > 9 then doubled - 9 else doubled
    else digitValue b
  digits.sum % 10 = 0

/-- 13 to 19 digits that pass the Luhn check. -/
def isValidCard (digits : Bytes) : Bool :=
  if digits.length < 13 ∨ digits.length > 19 ∨ !digits.all isAsciiDigit then false
  else luhnCheck digits

def isValidSsnFormat (s : Bytes) : Bool :=
  (s.length = 9 && s.all isAsciiDigit) ||
  (s.length = 11 && s[3]? = some dash && s[6]? = some dash && (slice s 0 3).all isAsciiDigit &&
    (slice s 4 6).all isAsciiDigit && (s.drop 7).all isAsciiDigit)

/-- The number that digits write. -/
def parseDigits (s : Bytes) : Nat := s.foldl (fun n b => 10 * n + digitValue b) 0

/-- Nine digits whose area, group and serial number can be assigned. -/
def isValidSsn (digits : Bytes) : Bool :=
  if digits.length ≠ 9 ∨ !digits.all isAsciiDigit then false
  else
    let area := parseDigits (slice digits 0 3)
    let group := parseDigits (slice digits 3 5)
    let serial := parseDigits (digits.drop 5)
    !(area = 0 || area = 666 || area > 899 || group = 0 || serial = 0)

/-! ### Tokens -/

/-- The bytes of a digit token. -/
def isTokenByte (b : UInt8) : Bool := isAsciiDigit b || b == space || b == dash

def findDigitToken (bytes : Bytes) (start : Nat) : Option (Nat × Nat) :=
  let s := runStart isTokenByte bytes start
  let e := runEnd isTokenByte bytes start
  if e ≤ s then none
  else if (slice bytes s e).countP isAsciiDigit = 0 then none
  else some (s, e)

/-- White space, quote, comma and `&`. -/
def isBoundary (b : UInt8) : Bool :=
  b == space || b == 0x0a || b == 0x0d || b == 0x09 || b == 0x2c || b == 0x22 || b == 0x26

def isWordByte (b : UInt8) : Bool := !isBoundary b

def findEmailBoundary (bytes : Bytes) (atPos : Nat) : Option (Nat × Nat) :=
  let s := runStart isWordByte bytes atPos
  let e := runEnd isWordByte bytes (atPos + 1)
  if s < atPos ∧ e > atPos + 1 then some (s, e) else none

/-- The first digit of a token from `s` on. -/
def trimStart (bytes : Bytes) (s stop : Nat) : Nat :=
  s + ((slice bytes s stop).takeWhile (!isAsciiDigit ·)).length

/-- The end of the last digit of a token, not below `s`. -/
def trimEnd (bytes : Bytes) (s : Nat) : Nat → Nat
  | 0 => 0
  | e + 1 => if s < e + 1 ∧ !holdsAt isAsciiDigit bytes e then trimEnd bytes s e else e + 1

/-- The candidate around a digit: its token without what is not a digit at both ends. -/
def digitCandidate (bytes : Bytes) (i : Nat) : Option (Nat × Nat) :=
  if holdsAt isAsciiDigit bytes i then
    match findDigitToken bytes i with
    | none => none
    | some (start, stop) =>
      let s := trimStart bytes start stop
      let e := trimEnd bytes s stop
      if e ≤ s then none else some (s, e)
  else none

/-! ### The scans -/

def isCard (candidate : Bytes) : Bool :=
  let digitCount := candidate.countP isAsciiDigit
  13 ≤ digitCount && digitCount ≤ 19 && isValidCard (candidate.filter isAsciiDigit)

def isSsn (candidate : Bytes) : Bool :=
  candidate.countP isAsciiDigit = 9 && isValidSsnFormat candidate &&
    isValidSsn (candidate.filter isAsciiDigit)

def emailAt (bytes : Bytes) (i : Nat) : Option Span :=
  if bytes[i]? = some atSign then
    match findEmailBoundary bytes i with
    | none => none
    | some (s, e) =>
      if isValidEmail (slice bytes s e) then some ⟨s, e, PiiKind.email.marker⟩ else none
  else none

/-- The span of a number around `i`, if `kindOf` accepts its candidate. -/
def numberAt (kindOf : Bytes → Option PiiKind) (bytes : Bytes) (i : Nat) : Option Span :=
  match digitCandidate bytes i with
  | none => none
  | some (s, e) => (kindOf (slice bytes s e)).map fun kind => ⟨s, e, kind.marker⟩

def anyNumber (candidate : Bytes) : Option PiiKind :=
  if isCard candidate then some .card else if isSsn candidate then some .ssn else none

/-- The loop of a scan from `i` on; each round moves on, so that there are no more rounds than
bytes. -/
def scan (spanAt : Nat → Option Span) (len : Nat) : (rounds : Nat) → (i : Nat) → List Span
  | 0,          _ => []
  | rounds + 1, i =>
    if i < len then
      match spanAt i with
      | some span => span :: scan spanAt len rounds span.stop
      | none => scan spanAt len rounds (i + 1)
    else []

def findAllSpans (input : Bytes) : List Span :=
  scan (fun i => (emailAt input i).or (numberAt anyNumber input i)) input.length input.length 0

def kindSpanAt (kind : PiiKind) (input : Bytes) (i : Nat) : Option Span :=
  match kind with
  | .email => emailAt input i
  | .card => numberAt (fun c => if isCard c then some .card else none) input i
  | .ssn => numberAt (fun c => if isSsn c then some .ssn else none) input i

def findSpans (input : Bytes) (kind : PiiKind) : List Span :=
  scan (kindSpanAt kind input) input.length input.length 0

/-! ### Replacement -/

/-- `dedup_by_key`: of neighbours with one start, the first stays. -/
def dedupByStart : List Span → List Span
  | [] => []
  | span :: rest =>
    match dedupByStart rest with
    | [] => [span]
    | next :: rest' => if next.start = span.start then span :: rest' else span :: next :: rest'

/-- The order of `(start, end)`. -/
def Span.le (a b : Span) : Prop := a.start < b.start ∨ (a.start = b.start ∧ a.stop ≤ b.stop)

instance : DecidableRel Span.le := fun a b => by unfold Span.le; infer_instance

/-- The spans in order, of those with one start the shortest. -/
def sortSpans (spans : List Span) : List Span := dedupByStart (spans.insertionSort Span.le)

/-- The loop of `replace_spans`. -/
def writeSpans (input : Bytes) : (pos : Nat) → List Span → Bytes
  | pos, [] => input.drop pos
  | pos, span :: rest =>
    if span.start < pos then writeSpans input pos rest
    else slice input pos span.start ++ span.marker ++ writeSpans input span.stop rest

def replaceSpans (input : Bytes) (spans : List Span) : Bytes := writeSpans input 0 (sortSpans spans)

def redactPii (input : Bytes) : Bytes := replaceSpans input (findAllSpans input)

def redactEmails (input : Bytes) : Bytes := replaceSpans input (findSpans input .email)

def redactCards (input : Bytes) : Bytes := replaceSpans input (findSpans input .card)

def redactSsns (input : Bytes) : Bytes := replaceSpans input (findSpans input .ssn)

end S4.Filters
