import S4.Lib.Word
import S4.Records.Output

/-!
# Pipeline — Session

`PipelineSession`: the filters of an object, run over its records one at a time, under limits on
bytes, fuel and time.  A record is routed through all filters before the next one comes; at the end
the filters are finished in order, and what one of them still gives out is routed through those
behind it.

A filter is any machine with the calls of `PipelineFilter`, the filters of a session having one type
of states, which may be a sum; the fuel limit that a filter is given may make a call fail.  Every
plugin is kept together with its `stage_output_bytes`, and the list of stages gets shorter as they
are finished, so that no call finds a plugin that was taken.  A call that fails leaves a session
that is not used again; only the error is modelled.  The clock is given as the times at which it is
read.
-/

namespace S4.Pipeline

open Lib
open Records (Bytes Format OutputValidator Parsers Record S4Error DecoderLimits)

namespace Codes

def decodeInvalidOutput : String := "decode.invalid_output"
def limitInputBytes : String := "limit.input_bytes"
def limitOutputBytes : String := "limit.output_bytes"
def limitExpansion : String := "limit.expansion"
def limitIntermediateBytes : String := "limit.intermediate_bytes"
def limitFinishBytes : String := "limit.finish_bytes"
def limitPluginCount : String := "limit.plugin_count"
def wasmFuel : String := "wasm.fuel"
def wasmDeadline : String := "wasm.deadline"

end Codes

/-! ### Filters -/

inductive TransformOutcome where
  | emit (payload : Bytes)
  | drop
deriving DecidableEq

/-- The trait of a filter, with states in `σ`.  `finish` gives the trailing bytes and all the fuel
consumed. -/
structure PipelineFilter (σ : Type) where
  transform : σ → Bytes → (fuelLimit : Nat) → Except S4Error TransformOutcome × σ
  finish : σ → (fuelLimit : Nat) → Except S4Error (Bytes × Nat)
  fuelConsumed : σ → Nat

/-- A plugin of a snapshot; `start` is given the fuel that is left. -/
structure Plugin (σ : Type) where
  name : String
  enabled : Bool
  filter : PipelineFilter σ
  start : (fuelLimit : Nat) → Except S4Error σ

structure PipelineLimits where
  maxIntermediateRecordBytes : Nat
  maxPluginFinishBytes : Nat
  maxInputBytes : Nat
  maxOutputBytes : Nat
  maxExpansionFactor : Nat
  maxExpansionSlackBytes : Nat
  maxPlugins : Nat
  maxCumulativeFuel : Nat
  maxWallTime : Int
deriving DecidableEq

/-- `PluginSession`, with its `stage_output_bytes`. -/
structure PluginStage (σ : Type) where
  name : String
  filter : PipelineFilter σ
  state : σ
  accountedFuel : Nat
  outputBytes : Nat

/-- What a session keeps besides its plugins. -/
structure Account where
  limits : PipelineLimits
  outputValidator : OutputValidator
  inputBytes : Nat
  outputBytes : Nat
  fuelConsumed : Nat
  objectDeadline : Int

structure PipelineSession (σ : Type) where
  stages : List (PluginStage σ)
  account : Account

/-! ### Errors -/

def outputValidationError (error : S4Error) : S4Error :=
  ⟨Codes.decodeInvalidOutput, error.message⟩

def pluginError (name : String) (error : S4Error) : S4Error :=
  ⟨error.code, "plugin " ++ name ++ ": " ++ error.message⟩

def limitError (code kind : String) (actual limit : Nat) : S4Error :=
  ⟨code, kind ++ " " ++ toString actual ++ " exceeds limit " ++ toString limit⟩

def fuelLimitError : S4Error := ⟨Codes.wasmFuel, "Wasm pipeline cumulative fuel exhausted"⟩

def recordLen (record : Record) : Nat := satAdd 64 record.payload.length record.separator.length

def checkedTotal (code kind : String) (current added limit : Nat) : Except S4Error Nat :=
  match checkedAdd 64 current added with
  | none => .error ⟨code, kind ++ " count overflow"⟩
  | some total => if limit < total then .error (limitError code kind total limit) else .ok total

/-! ### Accounting -/

namespace Account

variable {σ : Type}

def checkIntermediate (a : Account) (bytes : Nat) : Except S4Error Unit :=
  if a.limits.maxIntermediateRecordBytes < bytes then
    .error (limitError Codes.limitIntermediateBytes "intermediate record" bytes
      a.limits.maxIntermediateRecordBytes)
  else .ok ()

/-- The output that the input so far allows. -/
def expansionLimit (a : Account) : Nat :=
  min (satAdd 64 (satMul 64 a.inputBytes a.limits.maxExpansionFactor)
    a.limits.maxExpansionSlackBytes) a.limits.maxOutputBytes

def checkCumulativeOutput (a : Account) (total : Nat) : Except S4Error Unit :=
  if a.limits.maxOutputBytes < total then
    .error (limitError Codes.limitOutputBytes "output bytes" total a.limits.maxOutputBytes)
  else if a.expansionLimit < total then
    .error (limitError Codes.limitExpansion "cumulative expansion" total a.expansionLimit)
  else .ok ()

/-- The stage with the bytes added to its own. -/
def accountStage (a : Account) (stage : PluginStage σ) (bytes : Nat) :
    Except S4Error (PluginStage σ) :=
  match checkedAdd 64 stage.outputBytes bytes with
  | none => .error ⟨Codes.limitOutputBytes, "stage byte count overflow"⟩
  | some total => do
    a.checkCumulativeOutput total
    return { stage with outputBytes := total }

def accountOutput (a : Account) (bytes : Nat) : Except S4Error Account :=
  match checkedAdd 64 a.outputBytes bytes with
  | none => .error ⟨Codes.limitOutputBytes, "output byte count overflow"⟩
  | some total => do
    a.checkCumulativeOutput total
    return { a with outputBytes := total }

def remainingFuel (a : Account) : Except S4Error Nat :=
  match checkedSub a.limits.maxCumulativeFuel a.fuelConsumed with
  | none => .error fuelLimitError
  | some remaining => if 0 < remaining then .ok remaining else .error fuelLimitError

def checkDeadline (a : Account) (now : Int) : Except S4Error Unit :=
  if a.objectDeadline ≤ now then
    .error ⟨Codes.wasmDeadline, "Wasm pipeline wall-time deadline exceeded"⟩
  else .ok ()

def accountFuel (a : Account) (consumed : Nat) : Except S4Error Account :=
  match checkedAdd 64 a.fuelConsumed consumed with
  | none => .error fuelLimitError
  | some fuel =>
    if a.limits.maxCumulativeFuel < fuel then .error fuelLimitError
    else .ok { a with fuelConsumed := fuel }

end Account

/-! ### Sessions -/

section Session

variable [Parsers] {σ : Type}

/-- The record through the stages from here on, or as far as it gets. -/
def routeFrom (a : Account) : List (PluginStage σ) → Record →
    Except S4Error (Option Record × List (PluginStage σ) × Account)
  | [], record => do
    let outputValidator ← (a.outputValidator.pushRecord record).mapError outputValidationError
    let a ← { a with outputValidator }.accountOutput (recordLen record)
    return (some record, [], a)
  | stage :: rest, record => do
    let remaining ← a.remainingFuel
    let (outcome, state) := stage.filter.transform stage.state record.payload remaining
    let currentFuel := stage.filter.fuelConsumed state
    let a ← a.accountFuel (currentFuel - stage.accountedFuel)
    let stage : PluginStage σ := ⟨stage.name, stage.filter, state, currentFuel, stage.outputBytes⟩
    match ← outcome.mapError (pluginError stage.name) with
    | .drop => return (none, stage :: rest, a)
    | .emit payload =>
      a.checkIntermediate payload.length
      let stage ← a.accountStage stage (recordLen { record with payload })
      let (out, rest, a) ← routeFrom a rest { record with payload }
      return (out, stage :: rest, a)

namespace PipelineSession

/-- One record through all plugins. -/
def process (s : PipelineSession σ) (now : Int) (record : Record) :
    Except S4Error (Option Record × PipelineSession σ) := do
  s.account.checkDeadline now
  let inputBytes ← checkedTotal Codes.limitInputBytes "input bytes" s.account.inputBytes
    (recordLen record) s.account.limits.maxInputBytes
  let (out, stages, account) ← routeFrom { s.account with inputBytes } s.stages record
  return (out, ⟨stages, account⟩)

/-- The trailing bytes of a stage that is finished. -/
def finishStage (a : Account) (stage : PluginStage σ) : Except S4Error (Bytes × Account) := do
  let remaining ← a.remainingFuel
  let (trailing, pluginFuel) ←
    (stage.filter.finish stage.state remaining).mapError (pluginError stage.name)
  let a ← a.accountFuel (pluginFuel - stage.accountedFuel)
  if a.limits.maxPluginFinishBytes < trailing.length then
    throw (limitError Codes.limitFinishBytes "plugin finish output" trailing.length
      a.limits.maxPluginFinishBytes)
  return (trailing, a)

/-- The loop of `finish_with_fuel` over the stages that are left, their number being given; the
clock is read before each. -/
def finishLoop (clock : Nat → Int) : (left : Nat) → (index : Nat) → Account → List (PluginStage σ) →
    Except S4Error (List Record × Account)
  | left + 1, index, a, stage :: rest => do
    a.checkDeadline (clock index)
    let (trailing, a) ← finishStage a stage
    if trailing = [] then finishLoop clock left (index + 1) a rest
    else
      a.checkIntermediate trailing.length
      let _ ← a.accountStage stage (recordLen ⟨trailing, []⟩)
      let (out, rest, a) ← routeFrom a rest ⟨trailing, []⟩
      let (output, a) ← finishLoop clock left (index + 1) a rest
      return (out.toList ++ output, a)
  | _, _, a, _ => .ok ([], a)

def finishWithFuel (s : PipelineSession σ) (clock : Nat → Int) :
    Except S4Error (List Record × Nat) := do
  let (output, a) ← finishLoop clock s.stages.length 0 s.account s.stages
  let _ ← a.outputValidator.finish.mapError outputValidationError
  return (output, a.fuelConsumed)

end PipelineSession

/-! ### Starting a session -/

/-- The plugins started in order, with the fuel that they have consumed. -/
def startPlugins (limits : PipelineLimits) : (fuelConsumed : Nat) → List (Plugin σ) →
    Except S4Error (List (PluginStage σ) × Nat)
  | fuelConsumed, [] => .ok ([], fuelConsumed)
  | fuelConsumed, plugin :: rest => do
    let state ← (plugin.start (limits.maxCumulativeFuel - fuelConsumed)).mapError
      (pluginError plugin.name)
    let consumed := plugin.filter.fuelConsumed state
    match checkedAdd 64 fuelConsumed consumed with
    | none => throw fuelLimitError
    | some fuel =>
      if limits.maxCumulativeFuel < fuel then throw fuelLimitError
      let (stages, fuel) ← startPlugins limits fuel rest
      return (⟨plugin.name, plugin.filter, state, consumed, 0⟩ :: stages, fuel)

/-- `DecoderLimits::default` -/
def defaultDecoderLimits : DecoderLimits where
  maxSourceFrameBytes := 1024 * 1024
  maxRecordBytes := 8 * 1024 * 1024
  maxJsonDocumentBytes := 8 * 1024 * 1024
  maxCsvFields := 16384

/-- The plugins of a snapshot that are enabled are started; `now` is the time of the call. -/
def startSessionWithDeadline (plugins : List (Plugin σ)) (limits : PipelineLimits) (format : Format)
    (now requestedDeadline : Int) : Except S4Error (PipelineSession σ) := do
  let enabled := plugins.filter (·.enabled)
  if limits.maxPlugins < enabled.length then
    throw (limitError Codes.limitPluginCount "plugin count" enabled.length limits.maxPlugins)
  let (stages, fuelConsumed) ← startPlugins limits 0 enabled
  let outputValidator ← OutputValidator.new format defaultDecoderLimits
  return ⟨stages, {
    limits, outputValidator, fuelConsumed
    inputBytes := 0
    outputBytes := 0
    objectDeadline := min requestedDeadline (now + limits.maxWallTime) }⟩

end Session

end S4.Pipeline
