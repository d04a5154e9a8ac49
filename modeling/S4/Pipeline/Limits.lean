import S4.Lib.Fallible
import S4.Lib.Reach
import S4.Pipeline.Composition

/-!
# Pipeline — Limits

The counters of a session on every run.  A call that fails leaves a session that another call may
find, so the calls are modelled once more with the session that they leave (`processMut`); where
they succeed they are those of `Session` (`processMut_eq`).

A successful call leaves every counter within its limit (`Within`, `session_within_limits`).  The
totals of bytes hold after every call (`Bounded`).  The fuel does not: a filter that consumes too
much has its fuel added before the call fails.  But no call succeeds after that.
-/

namespace S4.Pipeline

open Lib
open Records (Bytes Format OutputValidator Parsers Record S4Error DecoderLimits)

variable {σ : Type} {clock : Nat → Int} {records : List Record} {fuel : Nat}

/-! ### Calls that fail -/

/-- `account_fuel`, which adds the fuel before it is checked. -/
def Account.accountFuelMut (a : Account) (consumed : Nat) : Except S4Error Unit × Account :=
  match checkedAdd 64 a.fuelConsumed consumed with
  | none => (.error fuelLimitError, a)
  | some fuel =>
    (if a.limits.maxCumulativeFuel < fuel then .error fuelLimitError else .ok (),
      { a with fuelConsumed := fuel })

/-- One round of the loop of `route_from`: what the stage makes of the record. -/
def transformMut (a : Account) (stage : PluginStage σ) (record : Record) :
    Except S4Error (Option Record) × PluginStage σ × Account :=
  match a.remainingFuel with
  | .error e => (.error e, stage, a)
  | .ok remaining =>
    let (outcome, state) := stage.filter.transform stage.state record.payload remaining
    let currentFuel := stage.filter.fuelConsumed state
    let stage' : PluginStage σ := ⟨stage.name, stage.filter, state, currentFuel, stage.outputBytes⟩
    match a.accountFuelMut (currentFuel - stage.accountedFuel) with
    | (.error e, a) => (.error e, stage', a)
    | (.ok (), a) =>
      match outcome.mapError (pluginError stage.name) with
      | .error e => (.error e, stage', a)
      | .ok .drop => (.ok none, stage', a)
      | .ok (.emit payload) =>
        match a.checkIntermediate payload.length with
        | .error e => (.error e, stage', a)
        | .ok () =>
          match a.accountStage stage' (recordLen { record with payload }) with
          | .error e => (.error e, stage', a)
          | .ok stage'' => (.ok (some { record with payload }), stage'', a)

section Calls

variable [Parsers] (spoil : OutputValidator → Record → OutputValidator)

/-- The end of `route_from`; `spoil` is what a record that it rejects leaves of the validator. -/
def emitMut (a : Account) (record : Record) : Except S4Error (Option Record) × Account :=
  match (a.outputValidator.pushRecord record).mapError outputValidationError with
  | .error e => (.error e, { a with outputValidator := spoil a.outputValidator record })
  | .ok outputValidator =>
    match { a with outputValidator }.accountOutput (recordLen record) with
    | .error e => (.error e, { a with outputValidator })
    | .ok a => (.ok (some record), a)

def routeFromMut (a : Account) : List (PluginStage σ) → Record →
    Except S4Error (Option Record) × List (PluginStage σ) × Account
  | [],            record =>
    let (out, a) := emitMut spoil a record
    (out, [], a)
  | stage :: rest, record =>
    match transformMut a stage record with
    | (.error e, stage, a) => (.error e, stage :: rest, a)
    | (.ok none, stage, a) => (.ok none, stage :: rest, a)
    | (.ok (some record), stage, a) =>
      let (out, rest, a) := routeFromMut a rest record
      (out, stage :: rest, a)

def PipelineSession.processMut (s : PipelineSession σ) (now : Int) (record : Record) :
    Except S4Error (Option Record) × PipelineSession σ :=
  match s.account.checkDeadline now with
  | .error e => (.error e, s)
  | .ok () =>
    match checkedTotal Codes.limitInputBytes "input bytes" s.account.inputBytes (recordLen record)
        s.account.limits.maxInputBytes with
    | .error e => (.error e, s)
    | .ok inputBytes =>
      let (out, stages, account) := routeFromMut spoil { s.account with inputBytes } s.stages record
      (out, ⟨stages, account⟩)

/-- The loop of `finish_with_fuel` with the stages that it has finished. -/
def finishStages (clock : Nat → Int) : (left : Nat) → (index : Nat) → Account →
    List (PluginStage σ) → Except S4Error (List Record × List (PluginStage σ) × Account)
  | left + 1, index, a, stage :: rest => do
    a.checkDeadline (clock index)
    let (trailing, a) ← PipelineSession.finishStage a stage
    if trailing = [] then
      let (output, rest, a) ← finishStages clock left (index + 1) a rest
      return (output, stage :: rest, a)
    else
      a.checkIntermediate trailing.length
      let stage ← a.accountStage stage (recordLen ⟨trailing, []⟩)
      let (out, rest, a) ← routeFrom a rest ⟨trailing, []⟩
      let (output, rest, a) ← finishStages clock left (index + 1) a rest
      return (out.toList ++ output, stage :: rest, a)
  | _, _, a, _ => .ok ([], [], a)

/-! ### Calls that succeed -/

/-- The outcome of a call, without the session that a failure leaves. -/
def settled {α β : Type} : Except S4Error α × β → Except S4Error (α × β)
  | (.ok a, b) => .ok (a, b)
  | (.error e, _) => .error e

omit [Parsers] in
theorem accountFuel_eq (a : Account) (consumed : Nat) :
    a.accountFuel consumed = (settled (a.accountFuelMut consumed)).map Prod.snd := by
  rw [Account.accountFuel, Account.accountFuelMut]
  cases checkedAdd 64 a.fuelConsumed consumed with
  | none => rfl
  | some fuel => by_cases h : a.limits.maxCumulativeFuel < fuel <;> simp [h, settled, Except.map]

theorem routeFrom_eq (a : Account) (stages : List (PluginStage σ)) (record : Record) :
    routeFrom a stages record = settled (routeFromMut spoil a stages record) := by
  induction stages generalizing a record with
  | nil =>
    rw [routeFrom, routeFromMut, emitMut]
    cases (a.outputValidator.pushRecord record).mapError outputValidationError with
    | error => rfl
    | ok outputValidator =>
      simp only [bind, Except.bind]
      cases ({ a with outputValidator } : Account).accountOutput (recordLen record) <;> rfl
  | cons stage rest ih =>
    rw [routeFrom, routeFromMut, transformMut]
    cases a.remainingFuel with
    | error => rfl
    | ok remaining =>
      simp only [bind, Except.bind, accountFuel_eq]
      rcases a.accountFuelMut _ with ⟨_ | _, a⟩
      · rfl
      simp only [settled, Except.map]
      cases ((stage.filter.transform stage.state record.payload remaining).1).mapError
          (pluginError stage.name) with
      | error e => rfl
      | ok outcome =>
        cases outcome with
        | drop => rfl
        | emit payload =>
          simp only
          cases a.checkIntermediate payload.length with
          | error => rfl
          | ok =>
            simp only
            cases a.accountStage _ (recordLen { record with payload }) with
            | error => rfl
            | ok =>
              simp only [ih]
              rcases routeFromMut spoil a rest { record with payload } with ⟨_ | _, _, _⟩ <;> rfl

/-- **A call that succeeds is the call of the session.** -/
theorem processMut_eq (s : PipelineSession σ) (now : Int) (record : Record) :
    s.process now record = settled (s.processMut spoil now record) := by
  rw [PipelineSession.process, PipelineSession.processMut]
  cases s.account.checkDeadline now with
  | error => rfl
  | ok =>
    simp only [bind, Except.bind]
    cases checkedTotal Codes.limitInputBytes "input bytes" s.account.inputBytes (recordLen record)
        s.account.limits.maxInputBytes with
    | error e => rfl
    | ok inputBytes =>
      simp only [routeFrom_eq spoil]
      rcases routeFromMut spoil { s.account with inputBytes } s.stages record with
        ⟨_ | _, _, _⟩ <;> rfl

theorem finishLoop_eq (clock : Nat → Int) (left index : Nat) (a : Account)
    (stages : List (PluginStage σ)) :
    PipelineSession.finishLoop clock left index a stages =
      (finishStages clock left index a stages).map fun r => (r.1, r.2.2) := by
  induction left generalizing index a stages with
  | zero => rfl
  | succ left ih =>
    cases stages with
    | nil => rfl
    | cons stage rest =>
      rw [PipelineSession.finishLoop, finishStages]
      cases a.checkDeadline (clock index) with
      | error => rfl
      | ok =>
        simp only [bind, Except.bind]
        rcases PipelineSession.finishStage a stage with e | ⟨trailing, a⟩
        · rfl
        by_cases hempty : trailing = []
        · simp only [if_pos hempty, ih]
          rcases finishStages clock left (index + 1) a rest with e | ⟨_, _, _⟩ <;> rfl
        simp only [if_neg hempty]
        cases a.checkIntermediate trailing.length with
        | error => rfl
        | ok =>
          simp only
          cases a.accountStage stage (recordLen ⟨trailing, []⟩) with
          | error => rfl
          | ok =>
            simp only
            rcases routeFrom a rest ⟨trailing, []⟩ with e | ⟨out, rest, a⟩
            · rfl
            · simp only [ih]
              rcases finishStages clock left (index + 1) a rest with e | ⟨_, _, _⟩ <;> rfl

/-- **A session that is finished** gives the records and the fuel of its stages. -/
theorem finishWithFuel_eq_ok {s : PipelineSession σ}
    (h : s.finishWithFuel clock = .ok (records, fuel)) :
    ∃ stages account, finishStages clock s.stages.length 0 s.account s.stages =
      .ok (records, stages, account) ∧ account.fuelConsumed = fuel := by
  rw [PipelineSession.finishWithFuel, finishLoop_eq] at h
  obtain ⟨⟨output, a⟩, hloop, h⟩ := bind_eq_ok.mp h
  obtain ⟨-, -, h⟩ := bind_eq_ok.mp h
  cases h
  rcases hstages : finishStages clock s.stages.length 0 s.account s.stages with e | ⟨_, stages,
    account⟩
  · rw [hstages] at hloop
    cases hloop
  · rw [hstages] at hloop
    cases hloop
    exact ⟨stages, account, rfl, rfl⟩

end Calls

/-! ### Totals of bytes -/

/-- What a session may have put out of so much input. -/
def outputBound (limits : PipelineLimits) (inputBytes : Nat) : Nat :=
  min limits.maxOutputBytes (inputBytes * limits.maxExpansionFactor + limits.maxExpansionSlackBytes)

structure PluginStage.Bounded (stage : PluginStage σ) (limits : PipelineLimits) (inputBytes : Nat) :
    Prop where
  output : stage.outputBytes ≤ outputBound limits inputBytes
  word : stage.outputBytes ≤ maxWord 64

/-- The totals are within their limits, and all counters are words. -/
structure Account.Bounded (a : Account) (limits : PipelineLimits) : Prop where
  agrees : a.limits = limits
  input : a.inputBytes ≤ limits.maxInputBytes
  output : a.outputBytes ≤ outputBound limits a.inputBytes
  inputWord : a.inputBytes ≤ maxWord 64
  outputWord : a.outputBytes ≤ maxWord 64
  fuelWord : a.fuelConsumed ≤ maxWord 64

section Totals

variable {a a' : Account} {limits : PipelineLimits} {stage stage' : PluginStage σ} {n total : Nat}
  {record : Record} {out : Except S4Error (Option Record)}

theorem outputBound_mono {m : Nat} (h : n ≤ m) : outputBound limits n ≤ outputBound limits m := by
  have := Nat.mul_le_mul_right limits.maxExpansionFactor h
  simp only [outputBound]
  omega

theorem checkCumulativeOutput_le (h : a.checkCumulativeOutput total = .ok ()) :
    total ≤ outputBound a.limits a.inputBytes := by
  simp only [Account.checkCumulativeOutput] at h
  split at h
  · cases h
  split at h
  · cases h
  · next hmax hexpansion =>
    simp only [Account.expansionLimit, satAdd, satMul, outputBound] at hexpansion ⊢
    omega

theorem checkedTotal_eq_ok {code kind : String} {current added limit : Nat}
    (h : checkedTotal code kind current added limit = .ok total) :
    total = current + added ∧ total ≤ limit ∧ total ≤ maxWord 64 := by
  simp only [checkedTotal] at h
  split at h
  · cases h
  · next sum hsum =>
    split at h
    · cases h
    · next hle =>
      cases h
      have hword := checkedAdd_le hsum
      have := checkedAdd_eq_some hsum
      omega

theorem accountStage_eq_ok (h : a.accountStage stage n = .ok stage') :
    stage'.Bounded a.limits a.inputBytes := by
  simp only [Account.accountStage] at h
  split at h
  · cases h
  · next sum hsum =>
    obtain ⟨_, hcheck, h⟩ := bind_eq_ok.mp h
    cases h
    exact ⟨checkCumulativeOutput_le hcheck, checkedAdd_eq_some hsum ▸ checkedAdd_le hsum⟩

theorem accountOutput_eq_ok (h : a.accountOutput n = .ok a') :
    a' = { a with outputBytes := a.outputBytes + n } ∧
      a.outputBytes + n ≤ outputBound a.limits a.inputBytes ∧ a.outputBytes + n ≤ maxWord 64 := by
  simp only [Account.accountOutput] at h
  split at h
  · cases h
  · next sum hsum =>
    obtain ⟨_, hcheck, h⟩ := bind_eq_ok.mp h
    cases h
    obtain rfl := checkedAdd_eq_some hsum
    exact ⟨rfl, checkCumulativeOutput_le hcheck, checkedAdd_le hsum⟩

theorem accountFuel_eq_ok (h : a.accountFuel n = .ok a') :
    ∃ fuel, a' = { a with fuelConsumed := fuel } ∧ fuel ≤ maxWord 64 ∧
      fuel ≤ a.limits.maxCumulativeFuel := by
  simp only [Account.accountFuel] at h
  split at h
  · cases h
  · next fuel hsum =>
    split at h
    · cases h
    · next hle =>
      cases h
      exact ⟨fuel, rfl, checkedAdd_eq_some hsum ▸ checkedAdd_le hsum, not_lt.mp hle⟩

theorem accountFuelMut_spec (ha : a.Bounded limits) :
    ∃ fuel, (a.accountFuelMut n).2 = { a with fuelConsumed := fuel } ∧ fuel ≤ maxWord 64 ∧
      ((a.accountFuelMut n).1 = .ok () → fuel ≤ limits.maxCumulativeFuel) := by
  rw [Account.accountFuelMut]
  cases hsum : checkedAdd 64 a.fuelConsumed n with
  | none => exact ⟨a.fuelConsumed, rfl, ha.fuelWord, by simp⟩
  | some fuel =>
    refine ⟨fuel, rfl, checkedAdd_eq_some hsum ▸ checkedAdd_le hsum, fun hok => ?_⟩
    by_contra hlt
    rw [ha.agrees] at hok
    simp [not_le.mp hlt] at hok

theorem Account.Bounded.withFuel (ha : a.Bounded limits) (hword : n ≤ maxWord 64) :
    Account.Bounded { a with fuelConsumed := n } limits :=
  ⟨ha.agrees, ha.input, ha.output, ha.inputWord, ha.outputWord, hword⟩

theorem Account.Bounded.withValidator (ha : a.Bounded limits) {v : OutputValidator} :
    Account.Bounded { a with outputValidator := v } limits :=
  ⟨ha.agrees, ha.input, ha.output, ha.inputWord, ha.outputWord, ha.fuelWord⟩

/-- **One stage of a route**: only the fuel of the account changes, and it is within its limit if
the stage succeeds. -/
theorem transformMut_spec (ha : a.Bounded limits) (hs : stage.Bounded limits a.inputBytes)
    (h : transformMut a stage record = (out, stage', a')) :
    ∃ fuel, a' = { a with fuelConsumed := fuel } ∧ fuel ≤ maxWord 64 ∧
      stage'.Bounded limits a.inputBytes ∧ (out.isOk = true → fuel ≤ limits.maxCumulativeFuel) := by
  rw [transformMut] at h
  split at h
  · cases h
    exact ⟨a.fuelConsumed, rfl, ha.fuelWord, hs, by simp [Except.isOk, Except.toBool]⟩
  · next remaining hremaining =>
    simp only at h
    obtain ⟨fuel, ha₁, hword, hfuel⟩ := accountFuelMut_spec (n := stage.filter.fuelConsumed
      (stage.filter.transform stage.state record.payload remaining).2 - stage.accountedFuel) ha
    refine ⟨fuel, ?_⟩
    split at h
    · next e a₁ heq =>
      rw [heq] at ha₁
      cases h
      exact ⟨ha₁, hword, ⟨hs.output, hs.word⟩, by simp [Except.isOk, Except.toBool]⟩
    · next a₁ heq =>
      rw [heq] at ha₁ hfuel
      simp only at ha₁
      split at h
      · cases h
        exact ⟨ha₁, hword, ⟨hs.output, hs.word⟩, fun _ => hfuel rfl⟩
      · cases h
        exact ⟨ha₁, hword, ⟨hs.output, hs.word⟩, fun _ => hfuel rfl⟩
      split at h
      · cases h
        exact ⟨ha₁, hword, ⟨hs.output, hs.word⟩, fun _ => hfuel rfl⟩
      split at h
      · cases h
        exact ⟨ha₁, hword, ⟨hs.output, hs.word⟩, fun _ => hfuel rfl⟩
      · next hstage =>
        cases h
        refine ⟨ha₁, hword, ?_, fun _ => hfuel rfl⟩
        have := accountStage_eq_ok hstage
        rw [ha₁] at this
        exact ha.agrees ▸ this

end Totals

/-! ### Routes -/

/-- The record that a call has returned. -/
def returnedBy : Except S4Error (Option Record) → List Record
  | .ok out => out.toList
  | .error _ => []

/-- The bytes of records as they are counted. -/
def countedBytes (records : List Record) : Nat := (records.map recordLen).sum

theorem countedBytes_append (first second : List Record) :
    countedBytes (first ++ second) = countedBytes first + countedBytes second := by
  simp [countedBytes]

/-- What a record through stages does to their account. -/
structure Routed (limits : PipelineLimits) (a : Account) (stages : List (PluginStage σ))
    (out : Except S4Error (Option Record)) (stages' : List (PluginStage σ)) (a' : Account) :
    Prop where
  account : a'.Bounded limits
  each : ∀ stage ∈ stages', stage.Bounded limits a.inputBytes
  input : a'.inputBytes = a.inputBytes
  output : a'.outputBytes = a.outputBytes + countedBytes (returnedBy out)
  length : stages'.length = stages.length
  idle : stages = [] → a'.fuelConsumed = a.fuelConsumed
  fuel : out.isOk = true → stages ≠ [] ∨ a.fuelConsumed ≤ limits.maxCumulativeFuel →
    a'.fuelConsumed ≤ limits.maxCumulativeFuel

section Routes

variable [Parsers] {spoil : OutputValidator → Record → OutputValidator} {a a' : Account}
  {limits : PipelineLimits} {stages stages' : List (PluginStage σ)} {record : Record}
  {out : Except S4Error (Option Record)}

theorem emitMut_spec (ha : a.Bounded limits) (h : emitMut spoil a record = (out, a')) :
    Routed limits a ([] : List (PluginStage σ)) out [] a' := by
  rw [emitMut] at h
  split at h
  · cases h
    exact ⟨ha.withValidator, by simp, rfl, rfl, rfl,
      fun _ => rfl, by simp [Except.isOk, Except.toBool]⟩
  · next v hv =>
    split at h
    · cases h
      exact ⟨ha.withValidator, by simp, rfl, rfl, rfl, fun _ => rfl,
        by simp [Except.isOk, Except.toBool]⟩
    · next a₁ hout =>
      cases h
      obtain ⟨rfl, hbound, hword⟩ := accountOutput_eq_ok hout
      refine ⟨⟨ha.agrees, ha.input, ha.agrees ▸ hbound, ha.inputWord, hword, ha.fuelWord⟩, by simp,
        rfl,
        by simp [countedBytes, returnedBy], rfl, fun _ => rfl, fun _ hfuel => hfuel.resolve_left ?_⟩
      simp

/-- **A record through the stages.** -/
theorem routeFromMut_spec (ha : a.Bounded limits)
    (hs : ∀ stage ∈ stages, stage.Bounded limits a.inputBytes)
    (h : routeFromMut spoil a stages record = (out, stages', a')) :
    Routed limits a stages out stages' a' := by
  induction stages generalizing a record stages' with
  | nil =>
    rw [routeFromMut] at h
    cases h
    exact emitMut_spec ha rfl
  | cons stage rest ih =>
    have hrest : ∀ stage ∈ rest, stage.Bounded limits a.inputBytes :=
      fun s hs' => hs s (List.mem_cons_of_mem _ hs')
    rw [routeFromMut] at h
    obtain ⟨⟨result, stage', a₁⟩, hstage⟩ : ∃ r, transformMut a stage record = r := ⟨_, rfl⟩
    obtain ⟨fuel, rfl, hword, hs', hfuel⟩ :=
      transformMut_spec ha (hs stage List.mem_cons_self) hstage
    rw [hstage] at h
    -- the stages that are reached, and those behind
    have hstages : ∀ later, (∀ stage ∈ later, stage.Bounded limits a.inputBytes) →
        ∀ stage ∈ stage' :: later, stage.Bounded limits a.inputBytes := by
      intro later hlater s hmem
      rcases List.mem_cons.mp hmem with rfl | hmem
      · exact hs'
      · exact hlater s hmem
    rcases result with e | _ | record'
    · cases h
      exact ⟨ha.withFuel hword, hstages _ hrest, rfl, rfl, rfl, by simp,
        by simp [Except.isOk, Except.toBool]⟩
    · cases h
      exact ⟨ha.withFuel hword, hstages _ hrest, rfl, rfl, rfl, by simp, fun _ _ => hfuel rfl⟩
    obtain ⟨⟨result, rest', a₂⟩, hroute⟩ :
        ∃ r, routeFromMut spoil { a with fuelConsumed := fuel } rest record' = r := ⟨_, rfl⟩
    simp only [hroute] at h
    cases h
    have hr := ih (ha.withFuel hword) hrest hroute
    exact ⟨hr.account, hstages _ hr.each, hr.input, hr.output, by simp [hr.length], by simp,
      fun hok _ => hr.fuel hok (.inr (hfuel rfl))⟩

end Routes

/-! ### Sessions -/

/-- What holds of a session between its calls. -/
structure PipelineSession.Bounded (s : PipelineSession σ) (limits : PipelineLimits)
    (returned : List Record) : Prop where
  account : s.account.Bounded limits
  stages : ∀ stage ∈ s.stages, stage.Bounded limits s.account.inputBytes
  output : s.account.outputBytes = countedBytes returned
  idle : s.stages = [] → s.account.fuelConsumed ≤ limits.maxCumulativeFuel

section Sessions

variable [Parsers] {spoil : OutputValidator → Record → OutputValidator} {s s' : PipelineSession σ}
  {limits : PipelineLimits} {returned : List Record} {out : Except S4Error (Option Record)}
  {record : Record} {a a' : Account} {stages stages' : List (PluginStage σ)}

/-- **A call keeps the totals**, and leaves the fuel within its limit if it succeeds. -/
theorem PipelineSession.Bounded.processMut (hs : s.Bounded limits returned) {now : Int}
    (h : s.processMut spoil now record = (out, s')) :
    s'.Bounded limits (returned ++ returnedBy out) ∧
      (out.isOk = true → s'.account.fuelConsumed ≤ limits.maxCumulativeFuel) := by
  have hsame : ∀ e, s.Bounded limits (returned ++ returnedBy (.error e)) := by
    intro e
    simpa [returnedBy] using hs
  rw [PipelineSession.processMut] at h
  split at h
  · cases h
    exact ⟨hsame _, by simp [Except.isOk, Except.toBool]⟩
  split at h
  · cases h
    exact ⟨hsame _, by simp [Except.isOk, Except.toBool]⟩
  · next inputBytes htotal =>
    obtain ⟨hsum, hle, hword⟩ := checkedTotal_eq_ok htotal
    rw [hs.account.agrees] at hle
    have hgrows : s.account.inputBytes ≤ inputBytes := by omega
    obtain ⟨⟨result, stages, account⟩, hroute⟩ :
        ∃ r, routeFromMut spoil { s.account with inputBytes } s.stages record = r := ⟨_, rfl⟩
    simp only [hroute] at h
    cases h
    have haccount : Account.Bounded { s.account with inputBytes } limits :=
      ⟨hs.account.agrees, hle, hs.account.output.trans (outputBound_mono hgrows), hword,
        hs.account.outputWord, hs.account.fuelWord⟩
    have hr := routeFromMut_spec haccount (fun stage hmem =>
      ⟨(hs.stages stage hmem).output.trans (outputBound_mono hgrows), (hs.stages stage hmem).word⟩)
      hroute
    have hidle : s.stages ≠ [] ∨ s.account.fuelConsumed ≤ limits.maxCumulativeFuel := by
      by_cases hnil : s.stages = []
      · exact .inr (hs.idle hnil)
      · exact .inl hnil
    refine ⟨⟨hr.account, fun stage hmem => hr.input ▸ hr.each stage hmem, ?_, fun hnil => ?_⟩,
      fun hok => hr.fuel hok hidle⟩
    · rw [countedBytes_append, ← hs.output]
      exact hr.output
    · have hnil' : s.stages = [] := by simpa [show stages = [] from hnil] using hr.length.symm
      exact (hr.idle hnil').trans_le (hs.idle hnil')

omit [Parsers] in
theorem finishStage_eq_ok {stage : PluginStage σ} {trailing : Bytes}
    (h : PipelineSession.finishStage a stage = .ok (trailing, a')) :
    ∃ fuel, a' = { a with fuelConsumed := fuel } ∧ fuel ≤ maxWord 64 ∧
      fuel ≤ a.limits.maxCumulativeFuel := by
  rw [PipelineSession.finishStage] at h
  simp only [bind_eq_ok] at h
  obtain ⟨remaining, -, ⟨bytes, pluginFuel⟩, -, a₁, hfuel, h⟩ := h
  dsimp only at h
  split at h
  · cases h
  · cases h
    exact accountFuel_eq_ok hfuel

theorem routeFrom_spec {out : Option Record} (ha : a.Bounded limits)
    (hs : ∀ stage ∈ stages, stage.Bounded limits a.inputBytes)
    (h : routeFrom a stages record = .ok (out, stages', a')) :
    Routed limits a stages (.ok out) stages' a' := by
  obtain ⟨⟨result, stages₁, a₁⟩, hroute⟩ : ∃ r, routeFromMut (fun v _ => v) a stages record = r :=
    ⟨_, rfl⟩
  rw [routeFrom_eq fun v _ => v, hroute] at h
  cases result with
  | error => cases h
  | ok =>
    cases h
    exact routeFromMut_spec ha hs hroute

/-- **The end of a session.** -/
theorem finishStages_spec {left index : Nat} (ha : a.Bounded limits)
    (hs : ∀ stage ∈ stages, stage.Bounded limits a.inputBytes) (hleft : left = stages.length)
    (hfuel : stages ≠ [] ∨ a.fuelConsumed ≤ limits.maxCumulativeFuel)
    (h : finishStages clock left index a stages = .ok (records, stages', a')) :
    a'.Bounded limits ∧ a'.inputBytes = a.inputBytes ∧
      (∀ stage ∈ stages', stage.Bounded limits a.inputBytes) ∧
      a'.outputBytes = a.outputBytes + countedBytes records ∧
      a'.fuelConsumed ≤ limits.maxCumulativeFuel := by
  induction left generalizing index a stages stages' records with
  | zero =>
    obtain rfl := List.length_eq_zero_iff.mp hleft.symm
    cases h
    exact ⟨ha, rfl, by simp, rfl, hfuel.resolve_left (by simp)⟩
  | succ left ih =>
    cases stages with
    | nil => cases hleft
    | cons stage rest =>
      have hlen : left = rest.length := Nat.succ.inj hleft
      have hrest : ∀ stage ∈ rest, stage.Bounded limits a.inputBytes :=
        fun s hs' => hs s (List.mem_cons_of_mem _ hs')
      rw [finishStages] at h
      obtain ⟨_, -, h⟩ := bind_eq_ok.mp h
      obtain ⟨⟨trailing, a₁⟩, hstage, h⟩ := bind_eq_ok.mp h
      obtain ⟨fuel, rfl, hword, hmax⟩ := finishStage_eq_ok hstage
      rw [ha.agrees] at hmax
      have ha₁ := ha.withFuel hword
      dsimp only at h
      split at h
      · obtain ⟨⟨output, rest', a₂⟩, hloop, h⟩ := bind_eq_ok.mp h
        cases h
        obtain ⟨hb, hinput, heach, hout, hmax'⟩ := ih ha₁ hrest hlen (.inr hmax) hloop
        refine ⟨hb, hinput, fun s hmem => ?_, hout, hmax'⟩
        rcases List.mem_cons.mp hmem with rfl | hmem
        · exact hs s List.mem_cons_self
        · exact heach s hmem
      · simp only [bind_eq_ok] at h
        obtain ⟨_, -, stage₁, hstage₁, ⟨out, rest₁, a₂⟩, hroute, ⟨output, rest', a₃⟩, hloop, h⟩ := h
        cases h
        have hr := routeFrom_spec ha₁ hrest hroute
        have hinput₂ : a₂.inputBytes = a.inputBytes := hr.input
        obtain ⟨hb, hinput, heach, hout, hmax'⟩ := ih hr.account
          (fun s hmem => hinput₂ ▸ hr.each s hmem) (hlen.trans hr.length.symm)
          (.inr (hr.fuel rfl (.inr hmax))) hloop
        refine ⟨hb, hinput.trans hinput₂, fun s hmem => ?_, ?_, hmax'⟩
        · rcases List.mem_cons.mp hmem with rfl | hmem
          · exact ha.agrees ▸ accountStage_eq_ok hstage₁
          · exact hinput₂ ▸ heach s hmem
        · rw [hout, hr.output, countedBytes_append, Nat.add_assoc]
          rfl

omit [Parsers] in
/-- The fuel of the plugins that are started is within its limit before each of them. -/
theorem startPlugins_spec {plugins : List (Plugin σ)} {fuel' : Nat}
    (hfuel : fuel ≤ limits.maxCumulativeFuel) (hword : fuel ≤ maxWord 64)
    (h : startPlugins limits fuel plugins = .ok (stages, fuel')) :
    fuel' ≤ limits.maxCumulativeFuel ∧ fuel' ≤ maxWord 64 ∧ ∀ stage ∈ stages,
      stage.outputBytes = 0 := by
  induction plugins generalizing fuel stages with
  | nil =>
    cases h
    exact ⟨hfuel, hword, by simp⟩
  | cons plugin rest ih =>
    rw [startPlugins] at h
    obtain ⟨state, -, h⟩ := bind_eq_ok.mp h
    dsimp only at h
    split at h
    · cases h
    · next total hsum =>
      split at h
      · cases h
      · next hle =>
        obtain ⟨⟨stages₁, fuel₁⟩, hrest, h⟩ := bind_eq_ok.mp h
        cases h
        obtain ⟨hmax, hword', hzero⟩ := ih (not_lt.mp hle)
          (checkedAdd_eq_some hsum ▸ checkedAdd_le hsum) hrest
        exact ⟨hmax, hword', by simpa using hzero⟩

end Sessions

/-! ### Runs -/

/-- A record whose length is a word, as that of every record in memory is. -/
def Addressable (r : Record) : Prop := r.payload.length + r.separator.length ≤ maxWord 64

/-- **The counters of a session after a successful call.** -/
structure Within (limits : PipelineLimits) (s : PipelineSession σ) (returned : List Record) :
    Prop where
  input : s.account.inputBytes ≤ limits.maxInputBytes
  output : s.account.outputBytes ≤ outputBound limits s.account.inputBytes
  stages : ∀ stage ∈ s.stages, stage.outputBytes ≤ outputBound limits s.account.inputBytes
  fuel : s.account.fuelConsumed ≤ limits.maxCumulativeFuel
  returned : (∀ r ∈ returned, Addressable r) →
    s.account.outputBytes = (returned.map fun r => r.payload.length + r.separator.length).sum
  words : s.account.inputBytes ≤ maxWord 64 ∧ s.account.outputBytes ≤ maxWord 64 ∧
    s.account.fuelConsumed ≤ maxWord 64 ∧ ∀ stage ∈ s.stages, stage.outputBytes ≤ maxWord 64

theorem countedBytes_eq (h : ∀ r ∈ records, Addressable r) :
    countedBytes records = (records.map fun r => r.payload.length + r.separator.length).sum := by
  rw [countedBytes]
  congr 1
  refine List.map_congr_left fun r hr => ?_
  exact Nat.min_eq_left (h r hr)

theorem PipelineSession.Bounded.within {s : PipelineSession σ} {limits : PipelineLimits}
    {returned : List Record} (h : s.Bounded limits returned)
    (hfuel : s.account.fuelConsumed ≤ limits.maxCumulativeFuel) : Within limits s returned :=
  ⟨h.account.input, h.account.output, fun stage hmem => (h.stages stage hmem).output, hfuel,
    fun hlen => h.output.trans (countedBytes_eq hlen), h.account.inputWord, h.account.outputWord,
    h.account.fuelWord, fun stage hmem => (h.stages stage hmem).word⟩

/-- A session and the records that it has returned. -/
structure Run (σ : Type) where
  session : PipelineSession σ
  returned : List Record

section Runs

variable [Parsers] {plugins : List (Plugin σ)} {limits : PipelineLimits} {format : Format}
  {now requestedDeadline : Int} {r : Run σ} {spoil : OutputValidator → Record → OutputValidator}

def Run.Starts (plugins : List (Plugin σ)) (limits : PipelineLimits) (format : Format)
    (now requestedDeadline : Int) (r : Run σ) : Prop :=
  startSessionWithDeadline plugins limits format now requestedDeadline = .ok r.session ∧
    r.returned = []

/-- A call, whether it succeeds or not. -/
inductive Run.Step (spoil : OutputValidator → Record → OutputValidator) :
    Run σ → Int × Record → Run σ → Prop where
  | process {r : Run σ} {now : Int} {record : Record} {out : Except S4Error (Option Record)}
      {s : PipelineSession σ} (h : r.session.processMut spoil now record = (out, s)) :
      Run.Step spoil r (now, record) ⟨s, r.returned ++ returnedBy out⟩

omit [Parsers] in
theorem Run.Starts.bounded (h : r.Starts plugins limits format now requestedDeadline) :
    r.session.Bounded limits r.returned := by
  obtain ⟨hstart, hnil⟩ := h
  simp only [startSessionWithDeadline] at hstart
  split at hstart
  · cases hstart
  obtain ⟨⟨stages, fuel⟩, hplugins, hstart⟩ := bind_eq_ok.mp hstart
  obtain ⟨validator, -, hstart⟩ := bind_eq_ok.mp hstart
  obtain ⟨hfuel, hword, hzero⟩ := startPlugins_spec (Nat.zero_le _) (Nat.zero_le _) hplugins
  rw [← Except.ok.inj hstart, hnil]
  refine ⟨⟨rfl, Nat.zero_le _, Nat.zero_le _, Nat.zero_le _, Nat.zero_le _, hword⟩,
    fun stage hmem => ?_, rfl, fun _ => hfuel⟩
  have hstage : stage.outputBytes = 0 := hzero stage hmem
  exact ⟨hstage.trans_le (Nat.zero_le _), hstage.trans_le (Nat.zero_le _)⟩

theorem bounded_of_reach
    (h : Reach (Run.Starts plugins limits format now requestedDeadline) (Run.Step spoil) r) :
    r.session.Bounded limits r.returned := by
  refine h.invariant (I := fun r => r.session.Bounded limits r.returned)
    (fun r hr => hr.bounded) ?_
  rintro r call r' - hr ⟨hcall⟩
  exact (hr.processMut hcall).1

/-- **The limits of a session hold on every run**, whatever its filters do: after every call that
succeeds, and after the session is finished.  While it is started, the fuel that is left is never
negative. -/
theorem session_within_limits
    (h : Reach (Run.Starts plugins limits format now requestedDeadline) (Run.Step spoil) r) :
    (∀ now record out s, r.session.processMut spoil now record = (.ok out, s) →
      Within limits s (r.returned ++ out.toList)) ∧
    (∀ clock records fuel, r.session.finishWithFuel clock = .ok (records, fuel) →
      ∃ s : PipelineSession σ,
        finishStages clock r.session.stages.length 0 r.session.account r.session.stages =
          .ok (records, s.stages, s.account) ∧
        s.account.fuelConsumed = fuel ∧ Within limits s (r.returned ++ records)) ∧
    (∀ before plugin after stages fuel, plugins.filter (·.enabled) = before ++ plugin :: after →
      startPlugins limits 0 before = .ok (stages, fuel) → fuel ≤ limits.maxCumulativeFuel) := by
  have hr := bounded_of_reach h
  refine ⟨fun now record out s hcall => ?_, fun clock records fuel hfinish => ?_,
    fun before plugin after stages fuel _ hstart =>
      (startPlugins_spec (Nat.zero_le _) (Nat.zero_le _) hstart).1⟩
  · obtain ⟨hs, hfuel⟩ := hr.processMut hcall
    exact hs.within (hfuel rfl)
  · obtain ⟨stages, account, hstages, hfuel⟩ := finishWithFuel_eq_ok hfinish
    have hidle : r.session.stages ≠ [] ∨
        r.session.account.fuelConsumed ≤ limits.maxCumulativeFuel := by
      by_cases hnil : r.session.stages = []
      · exact .inr (hr.idle hnil)
      · exact .inl hnil
    obtain ⟨hb, hinput, heach, hout, hmax⟩ :=
      finishStages_spec hr.account hr.stages rfl hidle hstages
    refine ⟨⟨stages, account⟩, hstages, hfuel, PipelineSession.Bounded.within ?_ hmax⟩
    refine ⟨hb, fun stage hmem => hinput ▸ heach stage hmem, ?_, fun _ => hmax⟩
    rw [countedBytes_append, ← hr.output]
    exact hout

end Runs

/-- A record through a session of one filter. -/
theorem everyOther_within_limits : letI := Records.lenientParsers
    ∃ s s' : PipelineSession Nat,
      startSessionWithDeadline [everyOther] sampleSettings.limits .text 0 60 = .ok s ∧
      s.processMut (fun v _ => v) 1 ⟨[1], [10]⟩ = (.ok (some ⟨[1], [10]⟩), s') ∧
      Within sampleSettings.limits s' [⟨[1], [10]⟩] := by
  let _ := Records.lenientParsers
  obtain ⟨s, hstart⟩ : ∃ s, startSessionWithDeadline [everyOther] sampleSettings.limits .text 0 60 =
      .ok s := ⟨_, rfl⟩
  have hout : (startSessionWithDeadline [everyOther] sampleSettings.limits .text 0 60).toOption.map
      (fun s => (s.processMut (fun v _ => v) 1 ⟨[1], [10]⟩).1) = some (.ok (some ⟨[1], [10]⟩)) := by
    decide +kernel
  rw [hstart] at hout
  obtain ⟨⟨out, s'⟩, hcall⟩ : ∃ r, s.processMut (fun v _ => v) 1 ⟨[1], [10]⟩ = r := ⟨_, rfl⟩
  obtain rfl : out = .ok (some ⟨[1], [10]⟩) := by simpa [Except.toOption, hcall] using hout
  exact ⟨s, s', hstart, hcall,
    (session_within_limits (.init (s := ⟨s, []⟩) ⟨hstart, rfl⟩)).1 1 _ _ s' hcall⟩

end S4.Pipeline
