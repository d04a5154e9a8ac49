import S4.Lib.Stages
import S4.Pipeline.Session

/-!
# Pipeline — Composition

A session over two lists of plugins, one behind the other, returns the records that a session over
the first list and then a session over the second return (`runPipeline_append`), as long as none of
the three meets a limit.

A plugin is deterministic when what it puts out is that of a machine without fuel
(`Plugin.Deterministic`); only a limit may make it fail.  The stages of a session follow such
machines (`Follows`), so that a session which meets no limit computes what the machines compute in
series (`runPipeline_meets`), and a series can be cut anywhere.
-/

namespace S4.Pipeline

open Lib Account List
open Records (Bytes Format OutputValidator Parsers Record S4Error)

variable {rs : List (Running Record)}

/-! ### Resources -/

/-- The codes of the errors that a limit on bytes, fuel, plugins or time gives. -/
def resourceCodes : List String :=
  [Codes.limitInputBytes, Codes.limitOutputBytes, Codes.limitExpansion,
    Codes.limitIntermediateBytes,
    Codes.limitFinishBytes, Codes.limitPluginCount, Codes.wasmFuel, Codes.wasmDeadline]

def HitsResource {α : Type} (r : Except S4Error α) : Prop :=
  ∃ e, r = .error e ∧ e.code ∈ resourceCodes

/-- A result that has the property, unless a resource was exhausted or `bad` holds. -/
def Ends {α : Type} (P : α → Prop) (bad : Prop) : Except S4Error α → Prop
  | .ok a => P a
  | .error e => e.code ∈ resourceCodes ∨ bad

namespace Ends

variable {α β : Type} {P : α → Prop} {Q : β → Prop} {bad bad' : Prop} {x : Except S4Error α}

theorem bind {f : α → Except S4Error β} (hx : Ends P bad x)
    (hf : ∀ a, P a → Ends Q bad (f a)) : Ends Q bad (x >>= f) := by
  cases x with
  | error => exact hx
  | ok a => exact hf a hx

theorem mono {P' : α → Prop} (hx : Ends P bad x) (h : ∀ a, P a → P' a)
    (hbad : bad → bad') : Ends P' bad' x := by
  cases x with
  | error => exact hx.imp_right hbad
  | ok a => exact h a hx

theorem mapError_plugin (name : String) (hx : Ends P bad x) :
    Ends P bad (x.mapError (pluginError name)) := by
  cases x with
  | error => exact hx
  | ok => exact hx

/-- What the output's validator says. -/
theorem mapError_output (x : Except S4Error α) :
    Ends (fun a => x = .ok a) (∃ e, x = .error e) (x.mapError outputValidationError) := by
  cases x with
  | error e => exact .inr ⟨e, rfl⟩
  | ok => rfl

end Ends

section Accounting

variable {σ : Type} (a : Account) (bad : Prop)

theorem Account.checkIntermediate_ends (n : Nat) :
    Ends (fun _ => True) bad (a.checkIntermediate n) := by
  simp only [checkIntermediate]
  split <;> simp [Ends, limitError, resourceCodes]

theorem Account.checkCumulativeOutput_ends (n : Nat) :
    Ends (fun _ => True) bad (a.checkCumulativeOutput n) := by
  simp only [checkCumulativeOutput]
  split
  · simp [Ends, limitError, resourceCodes]
  · split <;> simp [Ends, limitError, resourceCodes]

theorem Account.remainingFuel_ends : Ends (fun _ => True) bad a.remainingFuel := by
  simp only [remainingFuel]
  split
  · simp [Ends, fuelLimitError, resourceCodes]
  · split <;> simp [Ends, fuelLimitError, resourceCodes]

theorem Account.checkDeadline_ends (now : Int) :
    Ends (fun _ => True) bad (a.checkDeadline now) := by
  simp only [checkDeadline]
  split <;> simp [Ends, resourceCodes]

theorem Account.accountFuel_ends (n : Nat) :
    Ends (fun a' => a'.outputValidator = a.outputValidator) bad (a.accountFuel n) := by
  simp only [accountFuel]
  split
  · simp [Ends, fuelLimitError, resourceCodes]
  · split <;> simp [Ends, fuelLimitError, resourceCodes]

theorem Account.accountOutput_ends (n : Nat) :
    Ends (fun a' => a'.outputValidator = a.outputValidator) bad (a.accountOutput n) := by
  simp only [accountOutput]
  split
  · simp [Ends, resourceCodes]
  · exact (a.checkCumulativeOutput_ends bad _).bind fun _ _ => rfl

theorem Account.accountStage_ends (stage : PluginStage σ) (n : Nat) :
    Ends (fun stage' => stage'.filter = stage.filter ∧ stage'.state = stage.state) bad
      (a.accountStage stage n) := by
  simp only [accountStage]
  split
  · simp [Ends, resourceCodes]
  · exact (a.checkCumulativeOutput_ends bad _).bind fun _ _ => ⟨rfl, rfl⟩

theorem checkedTotal_ends {code kind : String} (h : code ∈ resourceCodes)
    (current added limit : Nat) :
    Ends (fun _ => True) bad (checkedTotal code kind current added limit) := by
  simp only [checkedTotal]
  split
  · exact .inl h
  · split
    · exact .inl h
    · trivial

end Accounting

/-! ### Limits -/

/-- The codes of the errors that a limit on bytes, fuel, time or output gives. -/
def limitCodes : List String :=
  [Codes.decodeInvalidOutput, Codes.limitInputBytes, Codes.limitOutputBytes, Codes.limitExpansion,
    Codes.limitIntermediateBytes, Codes.limitFinishBytes, Codes.limitPluginCount, Codes.wasmFuel,
    Codes.wasmDeadline]

def HitsLimit {α : Type} (r : Except S4Error α) : Prop := ∃ e, r = .error e ∧ e.code ∈ limitCodes

/-- A result that has the property, unless a limit was met. -/
def Meets {α : Type} (P : α → Prop) : Except S4Error α → Prop
  | .ok a => P a
  | .error e => e.code ∈ limitCodes

namespace Meets

variable {α β : Type} {P : α → Prop} {Q : β → Prop} {x : Except S4Error α}

theorem bind {f : α → Except S4Error β} (hx : Meets P x)
    (hf : ∀ a, P a → Meets Q (f a)) : Meets Q (x >>= f) := by
  cases x with
  | error => exact hx
  | ok a => exact hf a hx

/-- A plugin's error keeps its code. -/
theorem mapError_plugin (name : String) (hx : Meets P x) :
    Meets P (x.mapError (pluginError name)) := by
  cases x with
  | error => exact hx
  | ok => exact hx

/-- Every failure of the output's validator counts as a limit. -/
theorem mapError_output (x : Except S4Error α) :
    Meets (fun _ => True) (x.mapError outputValidationError) := by
  cases x with
  | error => exact mem_cons_self
  | ok => trivial

theorem of_ends (hx : Ends P False x) : Meets P x := by
  cases x with
  | error => exact mem_cons_of_mem _ (hx.resolve_right id)
  | ok => exact hx

theorem exists_ok (hx : Meets P x) (h : ¬ HitsLimit x) : ∃ a, x = .ok a ∧ P a := by
  cases x with
  | error e => exact absurd ⟨e, rfl, hx⟩ h
  | ok a => exact ⟨a, rfl, hx⟩

end Meets

/-! ### Deterministic plugins -/

/-- What a filter computes, without fuel. -/
structure Behaviour where
  State : Type
  init : State
  transform : State → Bytes → TransformOutcome × State
  finish : State → Bytes

/-- The behaviour on records: a payload keeps its separator, and the trailing bytes have none. -/
def Behaviour.stage (b : Behaviour) : Stage Record where
  State := b.State
  step t record := ((b.transform t record.payload).2,
    match (b.transform t record.payload).1 with
    | .drop => none
    | .emit payload => some { record with payload })
  flush t := if b.finish t = [] then none else some ⟨b.finish t, []⟩

section Deterministic

variable {σ : Type} {stage : PluginStage σ} {plugins : List (Plugin σ)}

/-- A filter computes the behaviour, its states standing for those of the behaviour. -/
structure Realizes (filter : PipelineFilter σ) (b : Behaviour) (R : σ → b.State → Prop) : Prop where
  transform : ∀ {s t}, R s t → ∀ payload fuelLimit,
    Meets (fun outcome => outcome = (b.transform t payload).1 ∧
        R (filter.transform s payload fuelLimit).2 (b.transform t payload).2)
      (filter.transform s payload fuelLimit).1
  finish : ∀ {s t}, R s t → ∀ fuelLimit,
    Meets (fun r => r.1 = b.finish t) (filter.finish s fuelLimit)

/-- A plugin whose filter starts as the machine does, and computes what it computes. -/
inductive Plugin.Acts (plugin : Plugin σ) : Running Record → Prop
  | intro {b : Behaviour} {R : σ → b.State → Prop} (filter : Realizes plugin.filter b R)
      (start : ∀ fuelLimit, Meets (R · b.init) (plugin.start fuelLimit)) :
      plugin.Acts ⟨b.stage, b.init⟩

/-- **A deterministic plugin**: the fuel that it is given may make a call fail, but does not change
what the call gives. -/
def Plugin.Deterministic (plugin : Plugin σ) : Prop := ∃ r, plugin.Acts r

/-- A stage of a session that follows a machine. -/
inductive Follows : PluginStage σ → Running Record → Prop
  | intro {stage : PluginStage σ} {b : Behaviour} {R : σ → b.State → Prop} {t : b.State}
      (filter : Realizes stage.filter b R) (state : R stage.state t) : Follows stage ⟨b.stage, t⟩

theorem Follows.of_same {stage' : PluginStage σ} {r : Running Record} (h : Follows stage r)
    (hf : stage'.filter = stage.filter) (hs : stage'.state = stage.state) : Follows stage' r := by
  cases h with
  | @intro b R t filter state => exact .intro (hf ▸ filter) (hs ▸ state)

theorem exists_acts (h : ∀ p ∈ plugins, p.Deterministic) :
    ∃ rs, List.Forall₂ Plugin.Acts plugins rs := by
  induction plugins with
  | nil => exact ⟨[], .nil⟩
  | cons p rest ih =>
    obtain ⟨r, hr⟩ := h p mem_cons_self
    obtain ⟨rs, hrs⟩ := ih fun q hq => h q (mem_cons_of_mem p hq)
    exact ⟨r :: rs, .cons hr hrs⟩

theorem finishStage_meets {b : Behaviour} {R : σ → b.State → Prop}
    {t : b.State} (filter : Realizes stage.filter b R) (state : R stage.state t) (a : Account) :
    Meets (fun r => r.1 = b.finish t) (PipelineSession.finishStage a stage) := by
  refine (Meets.of_ends (remainingFuel_ends _ _)).bind fun remaining _ => ?_
  refine ((filter.finish state remaining).mapError_plugin _).bind fun r hr => ?_
  refine (Meets.of_ends (accountFuel_ends _ _ _)).bind fun a _ => ?_
  dsimp only
  split
  · simp [Meets, limitError, limitCodes, throw, throwThe, MonadExceptOf.throw]
  · exact hr

theorem startPlugins_meets (limits : PipelineLimits)
    (h : List.Forall₂ Plugin.Acts plugins rs) (fuelConsumed : Nat) :
    Meets (fun r => List.Forall₂ Follows r.1 rs) (startPlugins limits fuelConsumed plugins) := by
  induction h generalizing fuelConsumed with
  | nil => exact .nil
  | @cons plugin _ rest machines hp _ ih =>
    cases hp with
    | @intro b R filter start =>
      refine ((start _).mapError_plugin _).bind fun state hstate => ?_
      dsimp only
      split
      · simp [Meets, fuelLimitError, limitCodes, throw, throwThe, MonadExceptOf.throw]
      · split
        · simp [Meets, fuelLimitError, limitCodes, throw, throwThe, MonadExceptOf.throw]
        · exact (ih _).bind fun r hr => .cons (.intro filter hstate) hr

theorem startSession_meets
    (h : List.Forall₂ Plugin.Acts (plugins.filter (·.enabled)) rs) {limits : PipelineLimits}
    {format : Format} {now requestedDeadline : Int} :
    Meets (fun s => List.Forall₂ Follows s.stages rs)
      (startSessionWithDeadline plugins limits format now requestedDeadline) := by
  simp only [startSessionWithDeadline]
  split
  · simp [Meets, limitError, limitCodes, throw, throwThe, MonadExceptOf.throw]
  · exact (startPlugins_meets limits h 0).bind fun r hr => hr

end Deterministic

/-! ### Sessions follow machines in series -/

section Sessions

variable [Parsers] {σ : Type} {stages : List (PluginStage σ)} {s : PipelineSession σ}

/-- **A record through the stages** comes out where it comes out of the machines. -/
theorem routeFrom_meets (h : List.Forall₂ Follows stages rs) (a : Account) (record : Record) :
    Meets (fun r => r.1 = (push rs record).2 ∧ List.Forall₂ Follows r.2.1 (push rs record).1)
      (routeFrom a stages record) := by
  induction h generalizing a record with
  | nil =>
    refine (Meets.mapError_output _).bind fun v _ => ?_
    exact (Meets.of_ends (accountOutput_ends _ _ _)).bind fun a _ => ⟨rfl, .nil⟩
  | @cons stage _ rest machines hs _ ih =>
    cases hs with
    | @intro b R t filter state =>
      refine (Meets.of_ends (remainingFuel_ends _ _)).bind fun remaining _ => ?_
      refine (Meets.of_ends (accountFuel_ends _ _ _)).bind fun a _ => ?_
      refine ((filter.transform state record.payload remaining).mapError_plugin _).bind
        fun outcome ho => ?_
      have hstep : (Running.step ⟨b.stage, t⟩ record).1 =
          ⟨b.stage, (b.transform t record.payload).2⟩ := rfl
      cases outcome with
      | drop =>
        have hnone : (Running.step ⟨b.stage, t⟩ record).2 = none := by
          simp only [Running.step, Behaviour.stage, ← ho.1]
        rw [push, hnone, hstep]
        exact ⟨rfl, .cons (.intro filter ho.2) ‹_›⟩
      | emit payload =>
        have hsome : (Running.step ⟨b.stage, t⟩ record).2 = some { record with payload } := by
          simp only [Running.step, Behaviour.stage, ← ho.1]
        rw [push, hsome, hstep]
        refine (Meets.of_ends (checkIntermediate_ends _ _ _)).bind fun _ _ => ?_
        refine (Meets.of_ends (accountStage_ends _ _ _ _)).bind fun stage' hstage => ?_
        refine (ih a { record with payload }).bind fun r hr => ?_
        have hfollows : Follows (⟨stage.name, stage.filter,
            (stage.filter.transform stage.state record.payload remaining).2, 0, 0⟩ : PluginStage σ)
            ⟨b.stage, (b.transform t record.payload).2⟩ := .intro filter ho.2
        exact ⟨hr.1, .cons (hfollows.of_same hstage.1 hstage.2) hr.2⟩

theorem process_meets (h : List.Forall₂ Follows s.stages rs) {now : Int} {record : Record} :
    Meets (fun r => r.1 = (push rs record).2 ∧ List.Forall₂ Follows r.2.stages (push rs record).1)
      (s.process now record) := by
  refine (Meets.of_ends (checkDeadline_ends _ _ _)).bind fun _ _ => ?_
  refine (Meets.of_ends (checkedTotal_ends _ (by simp [resourceCodes]) _ _ _)).bind
    fun inputBytes _ => ?_
  exact (routeFrom_meets h _ record).bind fun r hr => hr

/-- **The end of a session** gives out what the machines give out when they are flushed in order. -/
theorem finishLoop_meets (clock : Nat → Int) (h : List.Forall₂ Follows stages rs) {left : Nat}
    (hleft : left = stages.length) (index : Nat) (a : Account) :
    Meets (fun r => r.1 = flushAll rs) (PipelineSession.finishLoop clock left index a stages) := by
  induction left generalizing stages rs index a with
  | zero =>
    obtain rfl := length_eq_zero_iff.mp hleft.symm
    cases h
    rw [PipelineSession.finishLoop, flushAll]
    · rfl
    · intro _ _ _ h; cases h
  | succ left ih =>
    cases h with
    | nil => cases hleft
    | @cons stage _ rest machines hs hrest =>
      have hlen : left = rest.length := Nat.succ.inj hleft
      cases hs with
      | @intro b R t filter state =>
        rw [PipelineSession.finishLoop, flushAll]
        have hflush : Running.flush ⟨b.stage, t⟩ =
            if b.finish t = [] then none else some ⟨b.finish t, []⟩ := rfl
        rw [hflush]
        refine (Meets.of_ends (checkDeadline_ends _ _ _)).bind fun _ _ => ?_
        refine (finishStage_meets filter state _).bind fun r hr => ?_
        obtain ⟨trailing, a⟩ := r
        cases (show trailing = b.finish t from hr)
        by_cases hempty : b.finish t = []
        · simp only [if_pos hempty]
          exact ih hrest hlen _ _
        · simp only [if_neg hempty]
          refine (Meets.of_ends (checkIntermediate_ends _ _ _)).bind fun _ _ => ?_
          refine (Meets.of_ends (accountStage_ends _ _ _ _)).bind fun _ _ => ?_
          refine (routeFrom_meets hrest _ _).bind fun r hr => ?_
          obtain ⟨out, rest', a⟩ := r
          have hlen' : left = rest'.length := by
            rw [hr.2.length_eq, push_length, ← hrest.length_eq, hlen]
          refine (ih hr.2 hlen' _ _).bind fun r hr' => ?_
          show out.toList ++ r.1 = _
          rw [show out = _ from hr.1, hr']

/-! ### Whole runs -/

/-- What a run is given besides its plugins and records: the clock is read at the start, for every
record and for every plugin that is finished. -/
structure RunSettings where
  limits : PipelineLimits
  format : Format
  started : Int
  requestedDeadline : Int
  clock : Nat → Int
  finishClock : Nat → Int

/-- The records in order, and what comes out of them. -/
def processAll (clock : Nat → Int) : (index : Nat) → PipelineSession σ → List Record →
    Except S4Error (List Record × PipelineSession σ)
  | _,     s, [] => .ok ([], s)
  | index, s, record :: records => do
    let (out, s) ← s.process (clock index) record
    let (output, s) ← processAll clock (index + 1) s records
    return (out.toList ++ output, s)

/-- A session over the plugins, all its records, and its end. -/
def runPipeline (settings : RunSettings) (plugins : List (Plugin σ)) (records : List Record) :
    Except S4Error (List Record) := do
  let s ← startSessionWithDeadline plugins settings.limits settings.format settings.started
    settings.requestedDeadline
  let (output, s) ← processAll settings.clock 0 s records
  let (trailing, _) ← s.finishWithFuel settings.finishClock
  return output ++ trailing

/-- The session after its records follows the machines after theirs. -/
theorem processAll_meets (clock : Nat → Int)
    (h : List.Forall₂ Follows s.stages rs) (index : Nat) (records : List Record) :
    Meets (fun r => ∃ rs', List.Forall₂ Follows r.2.stages rs' ∧
        r.1 ++ flushAll rs' = drive rs records)
      (processAll clock index s records) := by
  induction records generalizing s rs index with
  | nil => exact ⟨rs, h, by rw [drive, nil_append]⟩
  | cons record records ih =>
    refine (process_meets h).bind fun r hr => ?_
    refine (ih hr.2 (index + 1)).bind fun r' hr' => ?_
    obtain ⟨rs', hrs', hout⟩ := hr'
    exact ⟨rs', hrs', by rw [drive, append_assoc, hout, hr.1]⟩

theorem finishWithFuel_meets {clock : Nat → Int} (h : List.Forall₂ Follows s.stages rs) :
    Meets (fun r => r.1 = flushAll rs) (s.finishWithFuel clock) := by
  refine (finishLoop_meets clock h rfl 0 s.account).bind fun r hr => ?_
  exact (Meets.mapError_output _).bind fun _ _ => hr

/-- **A run computes what its machines compute in series**, unless it meets a limit. -/
theorem runPipeline_meets {settings : RunSettings} {plugins : List (Plugin σ)}
    (h : List.Forall₂ Plugin.Acts (plugins.filter (·.enabled)) rs)
    {records : List Record} :
    Meets (· = drive rs records) (runPipeline settings plugins records) := by
  refine (startSession_meets h).bind fun s hs => ?_
  refine (processAll_meets settings.clock hs 0 records).bind fun r hr => ?_
  obtain ⟨rs', hrs', hout⟩ := hr
  refine (finishWithFuel_meets hrs').bind fun r' hr' => ?_
  show r.1 ++ r'.1 = _
  rw [hr', hout]

/-- **Sessions compose**: as long as no limit is met, a session over `first` and then `second`
returns the records of a session over `second` that is fed with all the records of one over `first`.
-/
theorem runPipeline_append (first second : List (Plugin σ))
    (hfirst : ∀ p ∈ first, p.Deterministic) (hsecond : ∀ p ∈ second, p.Deterministic)
    (joint settings settings' : RunSettings) (records : List Record)
    (h : ¬ HitsLimit (runPipeline joint (first ++ second) records))
    (h₁ : ¬ HitsLimit (runPipeline settings first records))
    (h₂ : ∀ middle, runPipeline settings first records = .ok middle →
      ¬ HitsLimit (runPipeline settings' second middle)) :
    ∃ middle output, runPipeline settings first records = .ok middle ∧
      runPipeline settings' second middle = .ok output ∧
      runPipeline joint (first ++ second) records = .ok output := by
  obtain ⟨rs, hrs⟩ := exists_acts fun p hp => hfirst p (mem_filter.mp hp).1
  obtain ⟨rs', hrs'⟩ := exists_acts fun p hp => hsecond p (mem_filter.mp hp).1
  have hall : List.Forall₂ Plugin.Acts ((first ++ second).filter (·.enabled)) (rs ++ rs') := by
    rw [filter_append]
    exact rel_append hrs hrs'
  obtain ⟨middle, hmiddle, hm⟩ := (runPipeline_meets hrs).exists_ok h₁
  obtain ⟨output, houtput, ho⟩ := (runPipeline_meets hrs').exists_ok (h₂ _ hmiddle)
  obtain ⟨both, hboth, hb⟩ := (runPipeline_meets hall).exists_ok h
  refine ⟨middle, output, hmiddle, houtput, ?_⟩
  rw [hboth, hb, drive_append, ho, hm]

end Sessions

/-! ### A run of two plugins -/

/-- Drops every second record, and puts a last one behind them. -/
def everyOther : Plugin Nat where
  name := "every-other"
  enabled := true
  start _ := .ok 0
  filter := {
    transform n payload _ := (.ok (if n % 2 = 0 then .emit payload else .drop), n + 1)
    finish n _ := .ok ([UInt8.ofNat n], 0)
    fuelConsumed _ := 0 }

theorem everyOther_deterministic : everyOther.Deterministic := by
  let b : Behaviour := ⟨Nat, 0,
    fun n payload => (if n % 2 = 0 then .emit payload else .drop, n + 1), fun n => [UInt8.ofNat n]⟩
  have filter : Realizes everyOther.filter b Eq := {
    transform := by rintro s _ rfl payload fuelLimit; exact ⟨rfl, rfl⟩
    finish := by rintro s _ rfl fuelLimit; rfl }
  exact ⟨_, .intro filter fun _ => rfl⟩

def sampleSettings : RunSettings where
  limits := ⟨100, 100, 100, 100, 2, 10, 4, 1000, 60⟩
  format := .text
  started := 0
  requestedDeadline := 60
  clock _ := 1
  finishClock _ := 2

def sampleRecords : List Record := [⟨[1], [10]⟩, ⟨[2], [10]⟩, ⟨[3], [10]⟩]

theorem not_hitsLimit_of_ok {α : Type} {r : Except S4Error α} {a : α} (h : r = .ok a) :
    ¬ HitsLimit r := by
  rintro ⟨e, he, -⟩
  rw [h] at he
  cases he

theorem everyOther_twice : let _ := Records.lenientParsers
    ∃ middle output, runPipeline sampleSettings [everyOther] sampleRecords = .ok middle ∧
      runPipeline sampleSettings [everyOther] middle = .ok output ∧
      runPipeline sampleSettings ([everyOther] ++ [everyOther]) sampleRecords = .ok output := by
  intro parsers
  have hone : runPipeline sampleSettings [everyOther] sampleRecords =
      .ok [⟨[1], [10]⟩, ⟨[3], [10]⟩, ⟨[3], []⟩] := by decide +kernel
  have hdet : ∀ p ∈ [everyOther], p.Deterministic := by
    intro p hp
    rw [mem_singleton.mp hp]
    exact everyOther_deterministic
  refine runPipeline_append [everyOther] [everyOther] hdet hdet sampleSettings sampleSettings
    sampleSettings sampleRecords ?_ (not_hitsLimit_of_ok hone) ?_
  · have hboth : runPipeline sampleSettings ([everyOther] ++ [everyOther]) sampleRecords =
        .ok [⟨[1], [10]⟩, ⟨[3], []⟩, ⟨[3], []⟩] := by decide +kernel
    exact not_hitsLimit_of_ok hboth
  · rintro middle hmiddle
    obtain rfl : [⟨[1], [10]⟩, ⟨[3], [10]⟩, ⟨[3], []⟩] = middle := by
      rw [hone] at hmiddle
      exact Except.ok.inj hmiddle
    have htwo : runPipeline sampleSettings [everyOther] [⟨[1], [10]⟩, ⟨[3], [10]⟩, ⟨[3], []⟩] =
        .ok [⟨[1], [10]⟩, ⟨[3], []⟩, ⟨[3], []⟩] := by decide +kernel
    exact not_hitsLimit_of_ok htwo

end S4.Pipeline
