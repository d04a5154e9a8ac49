import S4.Lib.Fallible
import S4.Lib.Text

/-!
# Avro — Times

The dates and times of Avro as texts of the intermediate representation (`avro.rs`), and the checks
of these texts (`binary_ir.rs`).  The texts are as `chrono` writes them; its calendar, and its
readers of what it has written, are given (`Chrono`).

**Times survive** the way to a text and back, but `chrono` writes the fraction of a second with
three, six or nine digits, and the checks refuse a fraction that ends in a zero
(`times_survive_iff`).  Nanoseconds survive if they are whole microseconds (`nanos_survive_iff`),
and a conversion is refused or exact unless the milliseconds of a timestamp overflow
(`conversion_exact_iff`).
-/

namespace S4.Avro

open Lib

/-! ### Texts -/

structure NaiveTime where
  seconds : Nat
  nanos : Nat
  seconds_lt : seconds < 86400
  nanos_lt : nanos < 1000000000

structure NaiveDate where
  year : Int
  month : Nat
  day : Nat

/-- `%.f` and `SecondsFormat::AutoSi`: no more digits than needed, three at a time. -/
def fraction (nanos : Nat) : List UInt8 :=
  if nanos = 0 then []
  else if nanos % 1000000 = 0 then 0x2e :: padded 3 (nanos / 1000000)
  else if nanos % 1000 = 0 then 0x2e :: padded 6 (nanos / 1000)
  else 0x2e :: padded 9 nanos

/-- `%H:%M:%S%.f`. -/
def NaiveTime.format (t : NaiveTime) : List UInt8 :=
  padded 2 (t.seconds / 3600) ++ 0x3a :: padded 2 (t.seconds / 60 % 60) ++
    0x3a :: padded 2 (t.seconds % 60) ++ fraction t.nanos

/-- `%F`.  A year that has not four digits has a sign. -/
def NaiveDate.format (d : NaiveDate) : List UInt8 :=
  let year := d.year.natAbs
  let width := if year < 10000 then 4 else if year < 100000 then 5 else 6
  (if d.year < 0 then [0x2d] else if 9999 < d.year then [0x2b] else []) ++ padded width year ++
    0x2d :: padded 2 d.month ++ 0x2d :: padded 2 d.day

/-- `to_rfc3339_opts(SecondsFormat::AutoSi, true)`. -/
def formatTimestamp (d : NaiveDate) (t : NaiveTime) : List UInt8 :=
  d.format ++ 0x54 :: t.format ++ [0x5a]

def isLeapYear (year : Nat) : Bool := year % 4 == 0 && (year % 100 != 0 || year % 400 == 0)

/-- The days of a month; there is none out of range. -/
def daysOfMonth (year month : Nat) : Option Nat :=
  if month ∈ [1, 3, 5, 7, 8, 10, 12] then some 31
  else if month ∈ [4, 6, 9, 11] then some 30
  else if month = 2 then some (if isLeapYear year then 29 else 28)
  else none

/-- The rest of `chrono`: the calendar from `-262143-01-01` to `262142-12-31`, in days since
`1970-01-01`, and the readers of what is written above. -/
class Chrono where
  civil : Int → Option NaiveDate
  days : NaiveDate → Int
  parseDate : List UInt8 → Option NaiveDate
  parseTime : List UInt8 → Option NaiveTime
  parseTimestamp : List UInt8 → Option (NaiveDate × NaiveTime)
  civil_isSome (d : Int) : (civil d).isSome ↔ -96465292 ≤ d ∧ d ≤ 95026236
  days_civil {d : Int} {date : NaiveDate} (h : civil d = some date) : days date = d
  civil_valid {d : Int} {date : NaiveDate} (h : civil d = some date) (hy : 0 ≤ date.year) :
    ∃ n, daysOfMonth date.year.natAbs date.month = some n ∧ 1 ≤ date.day ∧ date.day ≤ n
  parseTime_format (t : NaiveTime) : parseTime t.format = some t
  parseTimestamp_format {d : Int} {date : NaiveDate} (h : civil d = some date) (t : NaiveTime)
    (hy : 0 ≤ date.year ∧ date.year ≤ 9999) : parseTimestamp (formatTimestamp date t) =
      some (date, t)

/-! ### The checks of a text -/

def validateDate : List UInt8 → Except String Unit
  | [y₁, y₂, y₃, y₄, c₁, m₁, m₂, c₂, d₁, d₂] => do
    if c₁ ≠ 0x2d ∨ c₂ ≠ 0x2d then .error "expected YYYY-MM-DD"
    let year ← (parseDigits [y₁, y₂, y₃, y₄]).elim (.error "year must contain digits") .ok
    let month ← (parseDigits [m₁, m₂]).elim (.error "month must contain digits") .ok
    let day ← (parseDigits [d₁, d₂]).elim (.error "day must contain digits") .ok
    if year = 0 then .error "year zero is not supported"
    let days ← (daysOfMonth year month).elim (.error "month is out of range") .ok
    if day = 0 ∨ days < day then .error "day is out of range"
  | _ => .error "expected YYYY-MM-DD"

def validateFraction : List UInt8 → Except String Unit
  | [] => .ok ()
  | b :: fraction =>
    if b ≠ 0x2e then .error "fractional seconds must start with a decimal point"
    else if fraction = [] ∨ 9 < fraction.length ∨ fraction.all isAsciiDigit = false then
      .error "fractional seconds must contain one to nine digits"
    else if fraction.getLast? = some 0x30 then
      .error "fractional seconds must not have trailing zeros"
    else .ok ()

def validateTime : List UInt8 → Except String Unit
  | h₁ :: h₂ :: c₁ :: m₁ :: m₂ :: c₂ :: s₁ :: s₂ :: rest => do
    if c₁ ≠ 0x3a ∨ c₂ ≠ 0x3a then .error "expected HH:MM:SS with an optional fractional part"
    let hour ← (parseDigits [h₁, h₂]).elim (.error "hour must contain digits") .ok
    let minute ← (parseDigits [m₁, m₂]).elim (.error "minute must contain digits") .ok
    let second ← (parseDigits [s₁, s₂]).elim (.error "second must contain digits") .ok
    if 23 < hour ∨ 59 < minute ∨ 59 < second then .error "time component is out of range"
    validateFraction rest
  | _ => .error "expected HH:MM:SS with an optional fractional part"

def validateTimestamp (value : List UInt8) : Except String Unit :=
  if value.getLast? ≠ some 0x5a then .error "expected a UTC timestamp ending in Z"
  else match splitOnce 0x54 value.dropLast with
    | none => .error "expected date and time separated by T"
    | some (date, time) =>
      if 0x54 ∈ time then .error "timestamp contains more than one T separator"
      else do
        validateDate date
        validateTime time

/-! ### Values -/

inductive SchemaKind where
  | date
  | time
  | timestamp
deriving DecidableEq

/-- The dates and times among the values of Avro. -/
inductive AvroValue where
  | date (days : Int)
  | timeMillis (value : Int)
  | timeMicros (value : Int)
  | timestampMillis (value : Int)
  | timestampMicros (value : Int)
  | timestampNanos (value : Int)
deriving DecidableEq

/-- The dates and times among the values of the intermediate representation. -/
inductive Value where
  | date (value : List UInt8)
  | time (value : List UInt8)
  | timestamp (value : List UInt8)
deriving DecidableEq

def Value.validate : Value → Except String Unit
  | .date value => validateDate value
  | .time value => validateTime value
  | .timestamp value => validateTimestamp value

/-- `overflow` is what a product that does not fit becomes: the debug build stops there. -/
inductive ConversionError where
  | unsupported (message : String)
  | overflow
deriving DecidableEq

def FitsI64 (v : Int) : Prop := -(2 ^ 63) ≤ v ∧ v < 2 ^ 63

instance (v : Int) : Decidable (FitsI64 v) := inferInstanceAs (Decidable (_ ∧ _))

def mulI64 (a b : Int) : Except ConversionError Int :=
  if FitsI64 (a * b) then .ok (a * b) else .error .overflow

def timeFromMicros (micros : Int) : Except ConversionError (List UInt8) :=
  if h : 0 ≤ micros ∧ micros < 86400000000 then
    .ok (NaiveTime.mk (micros / 1000000).toNat ((micros % 1000000).toNat * 1000) (by omega)
      (by omega)).format
  else .error (.unsupported "Avro time is outside one UTC day")

section Chrono

variable [Chrono]

/-- `DateTime::from_timestamp`. -/
def fromTimestamp (seconds : Int) (nanos : Nat) (h : nanos < 1000000000) :
    Option (NaiveDate × NaiveTime) :=
  (Chrono.civil (seconds / 86400)).map fun date =>
    (date, ⟨(seconds % 86400).toNat, nanos, by omega, h⟩)

def timestampText (timestamp : Option (NaiveDate × NaiveTime)) :
    Except ConversionError (List UInt8) :=
  timestamp.elim (.error (.unsupported "Avro timestamp is outside the supported range")) fun dt =>
    .ok (formatTimestamp dt.1 dt.2)

def timestampFromMicros (micros : Int) : Except ConversionError (List UInt8) :=
  timestampText (fromTimestamp (micros / 1000000) ((micros % 1000000).toNat * 1000) (by omega))

def timestampFromNanos (nanos : Int) : Except ConversionError (List UInt8) :=
  timestampText (fromTimestamp (nanos / 1000000000) (nanos % 1000000000).toNat (by omega))

def dateFromEpochDays (days : Int) : Except ConversionError (List UInt8) :=
  (Chrono.civil days).elim
    (.error (.unsupported "Avro date is outside the supported calendar range")) (.ok ·.format)

def dateToEpochDays (value : List UInt8) : Except ConversionError Int := do
  let date ← (Chrono.parseDate value).elim (.error (.unsupported "invalid date IR value")) .ok
  let days := Chrono.days date
  if -(2 ^ 31) ≤ days ∧ days < 2 ^ 31 then .ok days
  else .error (.unsupported "date is outside the Avro i32 day range")

def timeToMicros (value : List UInt8) : Except ConversionError Int := do
  let t ← (Chrono.parseTime value).elim (.error (.unsupported "invalid time IR value")) .ok
  .ok (t.seconds * 1000000 + (t.nanos / 1000 : Nat))

def timestampToMicros (value : List UInt8) : Except ConversionError Int := do
  let (date, t) ← (Chrono.parseTimestamp value).elim
    (.error (.unsupported "invalid timestamp IR value")) .ok
  .ok (Chrono.days date * 86400000000 + t.seconds * 1000000 + (t.nanos / 1000 : Nat))

def avroValueToIr : SchemaKind → AvroValue → Except ConversionError Value
  | .date, .date days                       => .date <$> dateFromEpochDays days
  | .time, .timeMillis value                => .time <$> (mulI64 value 1000 >>= timeFromMicros)
  | .time, .timeMicros value                => .time <$> timeFromMicros value
  | .timestamp, .timestampMillis value =>
    .timestamp <$> (mulI64 value 1000 >>= timestampFromMicros)
  | .timestamp, .timestampMicros value      => .timestamp <$> timestampFromMicros value
  | .timestamp, .timestampNanos value       => .timestamp <$> timestampFromNanos value
  | _, _ => .error (.unsupported "Avro value does not match its supported schema")

def irValueToAvro : SchemaKind → Value → Except ConversionError AvroValue
  | .date, .date value => .date <$> dateToEpochDays value
  | .time, .time value => .timeMicros <$> timeToMicros value
  | .timestamp, .timestamp value => .timestampMicros <$> timestampToMicros value
  | _, _ => .error (.unsupported "IR value does not match its supported Avro schema")

end Chrono

/-! ### What is written is accepted -/

/-- A fraction of microseconds is written with a zero at its end. -/
def TrailingZero (micros : Nat) : Prop :=
  micros ≠ 0 ∧ micros % 10 = 0 ∧ (micros % 1000 = 0 → micros % 10000 = 0)

theorem validateFraction_padded {w : Nat} (hw : 0 < w) (hle : w ≤ 9) (n : Nat) :
    validateFraction (0x2e :: padded w n) = .ok () ↔ n % 10 ≠ 0 := by
  obtain ⟨w, rfl⟩ := Nat.exists_eq_succ_of_ne_zero hw.ne'
  have hall : (padded (w + 1) n).all isAsciiDigit = true :=
    List.all_eq_true.mpr fun b hb => isAsciiDigit_of_mem_padded hb
  have hlast : (padded (w + 1) n).getLast? = some 0x30 ↔ n % 10 = 0 := by
    have hdigit : ∀ d : Fin 10, digit d = 0x30 ↔ d.val = 0 := by decide
    have hn := hdigit ⟨n % 10, Nat.mod_lt n (by decide)⟩
    rw [digit, Nat.mod_mod] at hn
    rw [padded, List.getLast?_concat, Option.some_inj]
    exact hn
  have hne : padded (w + 1) n ≠ [] := by simp [padded]
  rw [validateFraction, if_neg (by simp), if_neg (by simp [hne, hall, length_padded]; omega)]
  split
  · next h => simp [hlast.mp h]
  · next h => simpa using hlast.not.mp h

theorem validateFraction_micros {micros : Nat} (h : micros < 1000000) :
    validateFraction (fraction (micros * 1000)) = .ok () ↔ ¬ TrailingZero micros := by
  rw [fraction]
  split
  · next hzero => simp [validateFraction, TrailingZero, show micros = 0 by omega]
  next hzero =>
  split
  · next hmillis =>
    rw [validateFraction_padded (by decide) (by decide), TrailingZero]
    omega
  next hmillis =>
  rw [if_pos (by omega), validateFraction_padded (by decide) (by decide), TrailingZero]
  omega

theorem parseDigits_two {n : Nat} (h : n < 100) : parseDigits [digit (n / 10), digit n] = some n :=
  parseDigits_padded (w := 2) h

theorem validateTime_format (t : NaiveTime) :
    validateTime t.format = validateFraction (fraction t.nanos) := by
  have hlt := t.seconds_lt
  have hrange : ¬ (23 < t.seconds / 3600 ∨ 59 < t.seconds / 60 % 60 ∨ 59 < t.seconds % 60) := by
    omega
  simp [NaiveTime.format, padded, validateTime,
    parseDigits_two (show t.seconds / 3600 < 100 by omega),
    parseDigits_two (show t.seconds / 60 % 60 < 100 by omega),
    parseDigits_two (show t.seconds % 60 < 100 by omega), hrange, ok_bind]

variable {d : NaiveDate}

theorem validateDate_format {days : Nat} (hy : 1 ≤ d.year ∧ d.year ≤ 9999)
    (hdays : daysOfMonth d.year.natAbs d.month = some days) (hd : 1 ≤ d.day ∧ d.day ≤ days) :
    validateDate d.format = .ok () := by
  have hmonth : d.month < 100 ∧ days ≤ 31 := by
    simp only [daysOfMonth, List.mem_cons, List.not_mem_nil, or_false] at hdays
    grind
  have hyear : parseDigits [digit (d.year.natAbs / 10 / 10 / 10), digit (d.year.natAbs / 10 / 10),
      digit (d.year.natAbs / 10), digit d.year.natAbs] = some d.year.natAbs :=
    parseDigits_padded (w := 4) (show d.year.natAbs < 10 ^ 4 by omega)
  have hnarrow : d.year.natAbs < 10000 := by omega
  have hpositive : ¬ d.year < 0 ∧ ¬ 9999 < d.year := by omega
  have hzero : ¬ d.year.natAbs = 0 := by omega
  have hday : ¬ (d.day = 0 ∨ days < d.day) := by omega
  simp only [NaiveDate.format, hnarrow, hpositive, if_true, if_false, padded, List.nil_append,
    List.cons_append, validateDate, ne_eq, not_true_eq_false, or_self, hyear,
      parseDigits_two hmonth.1,
    parseDigits_two (show d.day < 100 by omega), Option.elim_some, hzero, hdays, hday, ok_bind]
  rfl

/-- There is one `T` in a timestamp. -/
theorem notMem_format (d : NaiveDate) (t : NaiveTime) : 0x54 ∉ d.format ∧ 0x54 ∉ t.format := by
  have hdigits : ∀ w n, (0x54 : UInt8) ∉ padded w n := fun w n h =>
    absurd (isAsciiDigit_of_mem_padded h) (by decide)
  have hfraction : 0x54 ∉ fraction t.nanos := by
    rw [fraction]
    repeat' split
    all_goals simp [hdigits]
  refine ⟨?_, by simp [NaiveTime.format, hdigits, hfraction]⟩
  simp only [NaiveDate.format]
  generalize (if d.year.natAbs < 10000 then 4 else _) = width
  repeat' split
  all_goals simp [hdigits]

theorem validateTimestamp_format (hd : validateDate d.format = .ok ()) (t : NaiveTime) :
    validateTimestamp (formatTimestamp d t) = validateFraction (fraction t.nanos) := by
  obtain ⟨hdate, htime⟩ := notMem_format d t
  rw [validateTimestamp, formatTimestamp, List.getLast?_concat, List.dropLast_concat,
    splitOnce_append hdate]
  simp only [ne_eq, not_true_eq_false, if_false, htime, hd, validateTime_format]
  rfl

/-! ### There and back -/

section Survive

variable [Chrono]

/-- The times of Avro, in microseconds. -/
def AvroValue.micros : AvroValue → Option (SchemaKind × Int)
  | .timeMillis value => some (.time, value * 1000)
  | .timeMicros value => some (.time, value)
  | .timestampMillis value => some (.timestamp, value * 1000)
  | .timestampMicros value => some (.timestamp, value)
  | _ => none

/-- A time of the day, or a timestamp of the years 1 to 9999. -/
def InRange (micros : Int) : SchemaKind → Prop
  | .date => False
  | .time => 0 ≤ micros ∧ micros < 86400000000
  | .timestamp => FitsI64 micros ∧ ∃ date, Chrono.civil (micros / 86400000000) = some date ∧
      1 ≤ date.year ∧ date.year ≤ 9999

variable {micros : Int}

theorem time_survives (h : InRange micros .time) :
    ∃ text, timeFromMicros micros = .ok text ∧ timeToMicros text = .ok micros ∧
      (validateTime text = .ok () ↔ ¬ TrailingZero (micros % 1000000).toNat) := by
  refine ⟨_, dif_pos h, ?_, ?_⟩
  · simp only [timeToMicros, Chrono.parseTime_format, Option.elim_some, ok_bind]
    congr 1
    simp only [InRange] at h
    omega
  · rw [validateTime_format]
    exact validateFraction_micros (by omega)

theorem timestamp_survives (h : InRange micros .timestamp) :
    ∃ text, timestampFromMicros micros = .ok text ∧ timestampToMicros text = .ok micros ∧
      (validateTimestamp text = .ok () ↔ ¬ TrailingZero (micros % 1000000).toNat) := by
  obtain ⟨-, date, hcivil, hyear⟩ := h
  obtain ⟨days, hdays, hday⟩ := Chrono.civil_valid hcivil (by omega)
  have hseconds : micros / 1000000 / 86400 = micros / 86400000000 := by omega
  refine ⟨formatTimestamp date ⟨(micros / 1000000 % 86400).toNat, (micros % 1000000).toNat * 1000,
    by omega, by omega⟩, ?_, ?_, ?_⟩
  · simp [timestampFromMicros, fromTimestamp, hseconds, hcivil, timestampText]
  · simp only [timestampToMicros, Chrono.parseTimestamp_format hcivil _ ⟨by omega, hyear.2⟩,
      Option.elim_some, Chrono.days_civil hcivil, ok_bind]
    congr 1
    omega
  · rw [validateTimestamp_format (validateDate_format hyear hdays hday)]
    exact validateFraction_micros (by omega)

/-- A time that is to survive. -/
structure Instant where
  value : AvroValue
  kind : SchemaKind
  micros : Int
  measured : value.micros = some (kind, micros)
  inRange : InRange micros kind

/-- **Times survive** the way to a text that is accepted and back, in microseconds, exactly if the
fraction of the second is not written with a zero at its end. -/
theorem times_survive_iff (v : Instant) :
    (∃ ir, avroValueToIr v.kind v.value = .ok ir ∧ ir.validate = .ok () ∧ irValueToAvro v.kind ir =
        .ok (if v.kind = .time then .timeMicros v.micros else .timestampMicros v.micros)) ↔
      ¬ TrailingZero (v.micros % 1000000).toNat := by
  obtain ⟨value, kind, micros, hmeasured, h⟩ := v
  cases kind with
  | date => exact h.elim
  | time =>
    obtain ⟨text, hfrom, hto, hvalid⟩ := time_survives h
    have hir : avroValueToIr .time value = .ok (.time text) := by
      cases value with
      | timeMillis value =>
        cases hmeasured
        have hfits : FitsI64 (value * 1000) := by
          simp only [InRange] at h
          simp only [FitsI64]
          omega
        simp [avroValueToIr, mulI64, hfits, hfrom]
      | timeMicros =>
        cases hmeasured
        simp [avroValueToIr, hfrom]
      | _ => cases hmeasured
    simp [hir, irValueToAvro, Value.validate, hto, hvalid]
  | timestamp =>
    obtain ⟨text, hfrom, hto, hvalid⟩ := timestamp_survives h
    have hir : avroValueToIr .timestamp value = .ok (.timestamp text) := by
      cases value with
      | timestampMillis =>
        cases hmeasured
        simp [avroValueToIr, mulI64, h.1, hfrom]
      | timestampMicros =>
        cases hmeasured
        simp [avroValueToIr, hfrom]
      | _ => cases hmeasured
    simp [hir, irValueToAvro, Value.validate, hto, hvalid]

end Survive

/-- A tenth of a second is written with three digits, and refused. -/
theorem tenth_of_second_refused :
    timeFromMicros 100000 = .ok (ascii "00:00:00.100") ∧
      validateTime (ascii "00:00:00.100") =
        .error "fractional seconds must not have trailing zeros" := by
  decide

/-! ### Nanoseconds -/

section Nanoseconds

variable [Chrono] {micros : Int}

/-- The instant of a value in nanoseconds: since `1970-01-01`, or of the day. -/
def AvroValue.nanos : AvroValue → Int
  | .date days => days * 86400000000000
  | .timeMillis value => value * 1000000
  | .timeMicros value => value * 1000
  | .timestampMillis value => value * 1000000
  | .timestampMicros value => value * 1000
  | .timestampNanos value => value

/-- The field of a value: dates and milliseconds of the day are `i32`. -/
def AvroValue.Fits : AvroValue → Prop
  | .date value | .timeMillis value => -(2 ^ 31) ≤ value ∧ value < 2 ^ 31
  | .timeMicros value | .timestampMillis value | .timestampMicros value | .timestampNanos value =>
    FitsI64 value

def NaiveTime.toNanos (t : NaiveTime) : Int := t.seconds * 1000000000 + t.nanos

/-- The text of a value is that of an instant. -/
def Value.Denotes (nanos : Int) : Value → Prop
  | .date value => ∃ days date, Chrono.civil days = some date ∧ value = date.format ∧
      nanos = days * 86400000000000
  | .time value => ∃ t : NaiveTime, value = t.format ∧ nanos = t.toNanos
  | .timestamp value =>
    ∃ days date t, Chrono.civil days = some date ∧ value = formatTimestamp date t ∧
      nanos = days * 86400000000000 + t.toNanos

/-- A conversion is refused, or exact. -/
def Exact (nanos : Int) (result : Except ConversionError Value) : Prop :=
  (∃ e, result = .error (.unsupported e)) ∨ ∃ value, result = .ok value ∧ value.Denotes nanos

theorem timeFromMicros_exact : Exact (micros * 1000) (.time <$> timeFromMicros micros) := by
  rw [timeFromMicros]
  split
  · next h =>
    refine .inr ⟨_, rfl, _, rfl, ?_⟩
    simp only [NaiveTime.toNanos]
    omega
  · exact .inl ⟨_, rfl⟩

theorem timestampText_exact (seconds : Int) (nanos : Nat) (h : nanos < 1000000000) :
    Exact (seconds * 1000000000 + nanos)
      (.timestamp <$> timestampText (fromTimestamp seconds nanos h)) := by
  rw [fromTimestamp]
  cases hcivil : Chrono.civil (seconds / 86400) with
  | none => exact .inl ⟨_, rfl⟩
  | some date =>
    refine .inr ⟨_, rfl, _, date, _, hcivil, rfl, ?_⟩
    simp only [NaiveTime.toNanos]
    omega

theorem timestampFromMicros_exact :
    Exact (micros * 1000) (.timestamp <$> timestampFromMicros micros) := by
  have h := timestampText_exact (micros / 1000000) ((micros % 1000000).toNat * 1000) (by omega)
  rwa [show micros / 1000000 * 1000000000 + ((micros % 1000000).toNat * 1000 : Nat) = micros * 1000
    by omega] at h

theorem timestampFromNanos_exact {nanos : Int} :
    Exact nanos (.timestamp <$> timestampFromNanos nanos) := by
  have h := timestampText_exact (nanos / 1000000000) (nanos % 1000000000).toNat (by omega)
  rwa [show nanos / 1000000000 * 1000000000 + ((nanos % 1000000000).toNat : Nat) =
    nanos by omega] at h

/-- A value as a file may store it. -/
structure Stored where
  value : AvroValue
  fits : value.Fits

/-- **A conversion is refused, or exact**, unless the product of the milliseconds of a timestamp
overflows. -/
theorem conversion_exact_iff (kind : SchemaKind) (v : Stored) :
    Exact v.value.nanos (avroValueToIr kind v.value) ↔
      ∀ millis, kind = .timestamp → v.value = .timestampMillis millis →
        FitsI64 (millis * 1000) := by
  obtain ⟨value, hfits⟩ := v
  have hmismatch : ∀ {nanos e}, Exact nanos (.error (.unsupported e)) := .inl ⟨_, rfl⟩
  cases value with
  | date days =>
    simp only [reduceCtorEq, false_imp_iff, implies_true, iff_true]
    cases kind with
    | date =>
      simp only [avroValueToIr, dateFromEpochDays]
      cases hcivil : Chrono.civil days with
      | none => exact hmismatch
      | some date => exact .inr ⟨_, rfl, days, date, hcivil, rfl, rfl⟩
    | _ => exact hmismatch
  | timeMillis millis =>
    simp only [reduceCtorEq, false_imp_iff, implies_true, iff_true]
    have hproduct : FitsI64 (millis * 1000) := by
      simp only [AvroValue.Fits, FitsI64] at hfits ⊢
      omega
    cases kind with
    | time =>
      simp only [avroValueToIr, mulI64, if_pos hproduct, AvroValue.nanos, ok_bind]
      exact (show millis * 1000 * 1000 = millis * 1000000 by omega) ▸ timeFromMicros_exact
    | _ => exact hmismatch
  | timeMicros =>
    simp only [reduceCtorEq, false_imp_iff, implies_true, iff_true]
    cases kind with
    | time => exact timeFromMicros_exact
    | _ => exact hmismatch
  | timestampMillis millis =>
    cases kind with
    | timestamp =>
      simp only [avroValueToIr, mulI64, AvroValue.nanos, AvroValue.timestampMillis.injEq,
        forall_const, forall_eq']
      constructor
      · intro hexact
        by_contra hover
        simp [if_neg hover, Exact] at hexact
      · intro hproduct
        rw [if_pos hproduct, show millis * 1000000 = millis * 1000 * 1000 by omega]
        exact timestampFromMicros_exact
    | _ => exact iff_of_true hmismatch (by simp)
  | timestampMicros =>
    simp only [reduceCtorEq, false_imp_iff, implies_true, iff_true]
    cases kind with
    | timestamp => exact timestampFromMicros_exact
    | _ => exact hmismatch
  | timestampNanos =>
    simp only [reduceCtorEq, false_imp_iff, implies_true, iff_true]
    cases kind with
    | timestamp => exact timestampFromNanos_exact
    | _ => exact hmismatch

/-- Nanoseconds of a timestamp in the years 1 to 9999. -/
structure Nanos where
  value : Int
  fits : FitsI64 value
  inRange : InRange (value / 1000) .timestamp

/-- **Nanoseconds survive** the way to a text and back exactly if they are whole microseconds. -/
theorem nanos_survive_iff (n : Nanos) :
    (∃ ir v, avroValueToIr .timestamp (.timestampNanos n.value) = .ok ir ∧
        irValueToAvro .timestamp ir = .ok v ∧ v.nanos = n.value) ↔ 1000 ∣ n.value := by
  obtain ⟨value, -, -, date, hcivil, hyear⟩ := n
  have hdays : value / 1000000000 / 86400 = value / 1000 / 86400000000 := by omega
  have hback : ∀ t, timestampToMicros (formatTimestamp date t) =
      .ok (value / 1000 / 86400000000 * 86400000000 + t.seconds * 1000000 +
        (t.nanos / 1000 : Nat)) := by
    intro t
    simp [timestampToMicros, Chrono.parseTimestamp_format hcivil t ⟨by omega, hyear.2⟩,
      Chrono.days_civil hcivil, ok_bind]
  simp only [avroValueToIr, timestampFromNanos, fromTimestamp, hdays, hcivil, timestampText,
    Option.map_some, Option.elim_some, Except.map_ok, Except.ok.injEq, exists_and_left,
      exists_eq_left',
    irValueToAvro, hback, AvroValue.nanos]
  omega

end Nanoseconds

/-! ### A calendar to run on -/

def readFraction : List UInt8 → Option Nat
  | [] => some 0
  | _ :: digits => (parseDigits digits).map (· * 10 ^ (9 - digits.length))

def readTime : List UInt8 → Option NaiveTime
  | h₁ :: h₂ :: _ :: m₁ :: m₂ :: _ :: s₁ :: s₂ :: rest => do
    let seconds := (← parseDigits [h₁, h₂]) * 3600 + (← parseDigits [m₁, m₂]) * 60 +
      (← parseDigits [s₁, s₂])
    let nanos ← readFraction rest
    if h : seconds < 86400 ∧ nanos < 1000000000 then some ⟨seconds, nanos, h.1, h.2⟩ else none
  | _ => none

theorem readFraction_fraction {nanos : Nat} (h : nanos < 1000000000) :
    readFraction (fraction nanos) = some nanos := by
  have hdigits : ∀ {w n}, n < 10 ^ w → readFraction (0x2e :: padded w n) =
    some (n * 10 ^ (9 - w)) := by
    intro w n hn
    simp [readFraction, parseDigits_padded hn, length_padded]
  rw [fraction]
  split
  · simp [readFraction, *]
  repeat' split
  all_goals
    rw [hdigits (by omega)]
    congr 1
    omega

theorem readTime_format (t : NaiveTime) : readTime t.format = some t := by
  obtain ⟨seconds, nanos, hseconds, hnanos⟩ := t
  have hsum : seconds / 3600 * 3600 + seconds / 60 % 60 * 60 + seconds % 60 = seconds := by omega
  simp [NaiveTime.format, padded, readTime, parseDigits_two (show seconds / 3600 < 100 by omega),
    parseDigits_two (show seconds / 60 % 60 < 100 by omega),
    parseDigits_two (show seconds % 60 < 100 by omega), readFraction_fraction hnanos, bind, hsum,
    hseconds, hnanos]

/-- The first day of 1970 has its date; the other days are told apart by a year before. -/
@[reducible] def oneDay : Chrono where
  civil d := if -96465292 ≤ d ∧ d ≤ 95026236 then
    some (if d = 0 then ⟨1970, 1, 1⟩ else ⟨d - 100000000, 1, 1⟩) else none
  days date := if date.year = 1970 then 0 else date.year + 100000000
  parseDate _ := none
  parseTime := readTime
  parseTimestamp s := (readTime (s.drop 11).dropLast).map (⟨1970, 1, 1⟩, ·)
  civil_isSome d := by
    split <;> simp [*]
  days_civil {d date} h := by
    grind
  civil_valid {d date} h hy := by
    obtain ⟨rfl, rfl⟩ : d = 0 ∧ date = ⟨1970, 1, 1⟩ := by grind
    exact ⟨31, rfl, by decide⟩
  parseTime_format := readTime_format
  parseTimestamp_format {d date} h t hy := by
    obtain rfl : date = ⟨1970, 1, 1⟩ := by grind
    have htail : (formatTimestamp ⟨1970, 1, 1⟩ t).drop 11 = t.format ++ [0x5a] := rfl
    rw [htail, List.dropLast_concat, readTime_format]
    rfl

/-- The first nanosecond of 1970 is back as the start of the year. -/
theorem nanosecond_lost : letI := oneDay
    FitsI64 1 ∧ InRange (1 / 1000) .timestamp ∧
      (avroValueToIr .timestamp (.timestampNanos 1) >>= irValueToAvro .timestamp) =
        .ok (.timestampMicros 0) := by
  exact ⟨by decide, ⟨by decide, _, rfl, by decide⟩, by decide⟩

/-- The milliseconds of a timestamp that overflow as microseconds. -/
theorem millis_overflow : letI := oneDay
    FitsI64 18446744073709552 ∧
      avroValueToIr .timestamp (.timestampMillis 18446744073709552) = .error .overflow := by
  decide

end S4.Avro
