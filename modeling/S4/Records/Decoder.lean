import Mathlib

/-!
# Records — Decoder

The incremental record decoder of the gateway (`record.rs`).  Source frames are pushed, records are
taken out one at a time, and `finish` ends the stream.  Line formats split at `\n`, CSV at a line
end outside quotes, and JSON is one document.

The decoder keeps the bytes of the unfinished record, how far it has scanned them, and for CSV the
state of the scan, so that no byte is scanned twice.  A call that fails leaves a decoder that is not
used again; only the error is modelled.  What the external parsers say is a function of the bytes
they are given (`Parsers`).
-/

namespace S4.Records

abbrev Bytes : Type := List UInt8

inductive Format where
  | jsonl
  | json
  | csv
  | tsv
  | text
deriving DecidableEq

structure S4Error where
  code : String
  message : String
deriving DecidableEq

namespace Codes

def decodeJson : String := "decode.json"
def decodeCsv : String := "decode.csv"
def decodeJsonl : String := "decode.jsonl"
def decodeEncoding : String := "decode.encoding"
def configInvalid : String := "config.invalid"
def limitInputBytes : String := "limit.input_bytes"
def recordTooLarge : String := "record.too_large"
def internal : String := "internal"

end Codes

/-- A record, and the separator behind it. -/
structure Record where
  payload : Bytes
  separator : Bytes
deriving DecidableEq

structure DecoderLimits where
  maxSourceFrameBytes : Nat
  maxRecordBytes : Nat
  maxJsonDocumentBytes : Nat
  maxCsvFields : Nat
deriving DecidableEq

inductive CsvState where
  | fieldStart
  | unquoted
  | quoted
  | quoteClosed
deriving DecidableEq

/-- The bytes that the decoder holds, the record that is ready, and how far it has scanned. -/
structure RecordDecoder where
  format : Format
  limits : DecoderLimits
  pending : Bytes
  ready : Option Record
  scanOffset : Nat
  csvState : CsvState
  csvFields : Nat
  finished : Bool
  complete : Bool
  inputSeen : Bool
  recordsEmitted : Nat
deriving DecidableEq

/-- What `csv_core` returns for one record: whether it is a complete one, the bytes consumed and the
number of fields. -/
structure CsvRead where
  record : Bool
  consumed : Nat
  fields : Nat
deriving DecidableEq

/-- The external parsers.  `utf8` and `json` give the text of the error; `csv` is given the input
and the number of field ends there is room for. -/
class Parsers where
  utf8 : Bytes → Except String Unit
  json : Bytes → Except String Unit
  csv : Bytes → Nat → CsvRead

def lf : UInt8 := 0x0a
def cr : UInt8 := 0x0d
def quote : UInt8 := 0x22
def comma : UInt8 := 0x2c

def limitError (code kind : String) (actual limit : Nat) : S4Error :=
  ⟨code, kind ++ " size " ++ toString actual ++ " exceeds limit " ++ toString limit⟩

def validateUtf8 [Parsers] (input : Bytes) (code : String) : Except S4Error Unit :=
  (Parsers.utf8 input).mapError (⟨code, ·⟩)

/-! ### CSV -/

def incrementCsvFields (maxCsvFields csvFields : Nat) : Except S4Error Nat :=
  if csvFields + 1 > maxCsvFields then
    .error (limitError Codes.recordTooLarge "CSV field count" (csvFields + 1) maxCsvFields)
  else .ok (csvFields + 1)

/-- What a byte does to the scan of a CSV record. -/
inductive CsvMove where
  | advance (state : CsvState) (fields : Nat)
  | boundary
deriving DecidableEq

/-- The scan of one byte, which is not yet a decision about a line end. -/
def CsvState.scan (state : CsvState) (maxCsvFields csvFields : Nat) (byte : UInt8) :
    Except S4Error CsvMove :=
  match state with
  | .fieldStart =>
    if byte = quote then .ok (.advance .quoted csvFields)
    else if byte = comma then
      (incrementCsvFields maxCsvFields csvFields).map (.advance .fieldStart)
    else if byte = lf ∨ byte = cr then .ok .boundary
    else .ok (.advance .unquoted csvFields)
  | .unquoted =>
    if byte = comma then
      (incrementCsvFields maxCsvFields csvFields).map (.advance .fieldStart)
    else if byte = quote then .error ⟨Codes.decodeCsv, "quote inside an unquoted CSV field"⟩
    else if byte = lf ∨ byte = cr then .ok .boundary
    else .ok (.advance .unquoted csvFields)
  | .quoted =>
    if byte = quote then .ok (.advance .quoteClosed csvFields)
    else .ok (.advance .quoted csvFields)
  | .quoteClosed =>
    if byte = quote then .ok (.advance .quoted csvFields)
    else if byte = comma then
      (incrementCsvFields maxCsvFields csvFields).map (.advance .fieldStart)
    else if byte = lf ∨ byte = cr then .ok .boundary
    else .error ⟨Codes.decodeCsv, "unexpected byte after closing CSV quote"⟩

namespace RecordDecoder

def new (format : Format) (limits : DecoderLimits) : Except S4Error RecordDecoder :=
  if limits.maxSourceFrameBytes = 0 ∨ limits.maxRecordBytes = 0 ∨
      limits.maxJsonDocumentBytes = 0 ∨ limits.maxCsvFields = 0 then
    .error ⟨Codes.configInvalid, "decoder limits must be greater than zero"⟩
  else .ok {
    format, limits
    pending := []
    ready := none
    scanOffset := 0
    csvState := .fieldStart
    csvFields := 1
    finished := false
    complete := false
    inputSeen := false
    recordsEmitted := 0 }

def bufferedBytes (d : RecordDecoder) : Nat :=
  d.pending.length + (d.ready.map fun r => r.payload.length + r.separator.length).getD 0

/-- The line end at `at`, or `none` while a `\r` may still be followed by `\n`. -/
def csvBoundary (d : RecordDecoder) (i : Nat) (atEof : Bool) : Option (Nat × Nat) :=
  if d.pending[i]? = some lf then some (i, i + 1)
  else match d.pending[i + 1]? with
    | some byte => if byte = lf then some (i, i + 2) else some (i, i + 1)
    | none => if atEof then some (i, i + 1) else none

def ensurePendingLimit (d : RecordDecoder) (max : Nat) (kind : String) : Except S4Error Unit :=
  if d.pending.length > max then
    .error (limitError Codes.recordTooLarge kind d.pending.length max)
  else .ok ()

def resetCsvState (d : RecordDecoder) : RecordDecoder :=
  { d with csvState := .fieldStart, csvFields := 1, scanOffset := 0 }

def consumeCsvEmpty (d : RecordDecoder) (consumed : Nat) : RecordDecoder :=
  resetCsvState { d with pending := d.pending.drop consumed }

def emitFinal (d : RecordDecoder) : RecordDecoder :=
  { d with
    ready := some ⟨d.pending, []⟩
    pending := []
    inputSeen := true
    complete := true
    scanOffset := 0 }

variable [Parsers] (d : RecordDecoder)

/-- The front of the buffer becomes the record that is ready. -/
def emit (payloadEnd separatorStart consumed : Nat) (utf8Code : String) :
    Except S4Error RecordDecoder :=
  if payloadEnd > d.limits.maxRecordBytes then
    .error (limitError Codes.recordTooLarge "record" payloadEnd d.limits.maxRecordBytes)
  else (validateUtf8 (d.pending.take payloadEnd) utf8Code).map fun _ =>
    { d with
      ready := some ⟨d.pending.take payloadEnd, (d.pending.take consumed).drop separatorStart⟩
      pending := d.pending.drop consumed
      scanOffset := 0 }

def validateCsv (payloadEnd : Nat) : Except S4Error Unit :=
  let input := d.pending.take payloadEnd ++ [lf]
  let read := Parsers.csv input d.limits.maxCsvFields
  if !read.record ∨ read.consumed ≠ input.length then
    .error ⟨Codes.decodeCsv, "CSV parser did not produce one complete record"⟩
  else if read.fields > d.limits.maxCsvFields then
    .error (limitError Codes.recordTooLarge "CSV field count" read.fields d.limits.maxCsvFields)
  else .ok ()

def emitCsv (payloadEnd separatorEnd : Nat) : Except S4Error RecordDecoder := do
  d.validateCsv payloadEnd
  validateUtf8 (d.pending.take payloadEnd) Codes.decodeEncoding
  let d ← d.emit payloadEnd payloadEnd separatorEnd Codes.decodeCsv
  return d.resetCsvState

/-! ### The next record -/

/-- The next line; a `\r` before its end belongs to the separator. -/
def prepareLine (atEof : Bool) : Except S4Error RecordDecoder :=
  match (d.pending.drop d.scanOffset).findIdx? (· == lf) with
  | some relativeEnd =>
    let stop := d.scanOffset + relativeEnd
    let payloadEnd := if 0 < stop ∧ d.pending[stop - 1]? = some cr then stop - 1 else stop
    d.emit payloadEnd payloadEnd (stop + 1) Codes.decodeEncoding
  | none => do
    let d := { d with scanOffset := d.pending.length }
    d.ensurePendingLimit d.limits.maxRecordBytes "record"
    if atEof ∧ (d.pending ≠ [] ∨ !d.inputSeen) then
      validateUtf8 d.pending Codes.decodeEncoding
      return d.emitFinal
    else if atEof then return { d with complete := true }
    else return d

def prepareJson (atEof : Bool) : Except S4Error RecordDecoder := do
  d.ensurePendingLimit d.limits.maxJsonDocumentBytes "JSON document"
  if !atEof then return d
  else if d.pending = [] then return { d with complete := true }
  else
    validateUtf8 d.pending Codes.decodeEncoding
    (Parsers.json d.pending).mapError (⟨Codes.decodeJson, ·⟩)
    return d.emitFinal

/-- The loop of `prepare_csv`.  The flag says that a record has been emitted, on which the function
returns.  Each round scans a byte or drops an empty line, so that `fuel` need not exceed the number
of bytes that are not yet scanned. -/
def csvLoop (atEof : Bool) : Nat → RecordDecoder → Except S4Error (Bool × RecordDecoder)
  | 0,        d => .ok (false, d)
  | fuel + 1, d =>
    match d.pending[d.scanOffset]? with
    | none => .ok (false, d)
    | some byte =>
      match d.csvState.scan d.limits.maxCsvFields d.csvFields byte with
      | .error e => .error e
      | .ok (.advance state fields) =>
        csvLoop atEof fuel
          { d with csvState := state, csvFields := fields, scanOffset := d.scanOffset + 1 }
      | .ok .boundary =>
        match d.csvBoundary d.scanOffset atEof with
        | none => .ok (false, d)
        | some (payloadEnd, separatorEnd) =>
          if d.csvState = .fieldStart ∧ payloadEnd = 0 then
            csvLoop atEof fuel (d.consumeCsvEmpty separatorEnd)
          else (d.emitCsv payloadEnd separatorEnd).map (true, ·)

def prepareCsv (atEof : Bool) : Except S4Error RecordDecoder := do
  let (emitted, d) ← csvLoop atEof d.pending.length d
  if emitted then return d
  else
    d.ensurePendingLimit d.limits.maxRecordBytes "CSV record"
    if !atEof then return d
    else if d.csvState = .quoted then
      throw ⟨Codes.decodeCsv, "unterminated quoted CSV field"⟩
    else if d.pending ≠ [] then
      d.validateCsv d.pending.length
      validateUtf8 d.pending Codes.decodeEncoding
      return d.emitFinal.resetCsvState
    else return { d with complete := true }

def prepareNext (atEof : Bool) : Except S4Error RecordDecoder :=
  if d.ready.isSome ∨ d.complete then .ok d
  else match d.format with
    | .text | .jsonl | .tsv => d.prepareLine atEof
    | .csv => d.prepareCsv atEof
    | .json => d.prepareJson atEof

/-! ### The calls -/

def push (d : RecordDecoder) (chunk : Bytes) : Except S4Error RecordDecoder :=
  if d.finished then .error ⟨Codes.internal, "cannot push after decoder finish"⟩
  else if d.ready.isSome then
    .error ⟨Codes.internal, "drain the ready record before pushing another source frame"⟩
  else if chunk.length > d.limits.maxSourceFrameBytes then
    .error (limitError Codes.limitInputBytes "source frame" chunk.length
      d.limits.maxSourceFrameBytes)
  else prepareNext { d with
    inputSeen := d.inputSeen || !chunk.isEmpty
    pending := d.pending ++ chunk } false

def nextRecord : Except S4Error (Option Record × RecordDecoder) := do
  let d ← if d.ready.isNone then d.prepareNext d.finished else .ok d
  match d.ready with
  | none => return (none, d)
  | some record => return (some record,
      { d with ready := none, recordsEmitted := d.recordsEmitted + 1 })

/-- Ends the stream; a CSV stream without records is refused. -/
def finish : Except S4Error RecordDecoder :=
  if d.finished then .ok d
  else if d.ready.isSome then
    .error ⟨Codes.internal, "drain the ready record before finishing the decoder"⟩
  else do
    let d ← prepareNext { d with finished := true } true
    if d.format = .csv ∧ d.ready.isNone ∧ d.recordsEmitted = 0 then
      throw ⟨Codes.decodeCsv, "no CSV records found"⟩
    else return d

/-- Take records until there is none.  A record takes a byte from the buffer, except the one empty
record of an empty stream, so that `bufferedBytes + 2` rounds are enough. -/
def drainRecords : Nat → RecordDecoder → Except S4Error (List Record × RecordDecoder)
  | 0,        d => .ok ([], d)
  | fuel + 1, d => do
    let (record, d) ← d.nextRecord
    match record with
    | none => return ([], d)
    | some record =>
      let (records, d) ← drainRecords fuel d
      return (record :: records, d)

def drain : Except S4Error (List Record × RecordDecoder) :=
  drainRecords (d.bufferedBytes + 2) d

/-- Push each frame and take its records. -/
def pushFrames (d : RecordDecoder) : List Bytes → Except S4Error (List Record × RecordDecoder)
  | [] => .ok ([], d)
  | frame :: frames => do
    let d ← d.push frame
    let (records, d) ← d.drain
    let (later, d) ← pushFrames d frames
    return (records ++ later, d)

end RecordDecoder

/-- Decode a stream that arrives in the given frames. -/
def decodeFrames [Parsers] (format : Format) (limits : DecoderLimits) (frames : List Bytes) :
    Except S4Error (List Record) := do
  let d ← RecordDecoder.new format limits
  let (records, d) ← d.pushFrames frames
  let d ← d.finish
  let (last, _) ← d.drain
  return records ++ last

end S4.Records
