import S4.Pipeline.Session
import S4.Plugins.Registry

/-!
# Runtime — Fuel

A guest runs in windows.  `prepare_call` lowers the fuel of the store to the budget of one call, and
`complete_call` puts back what the call has left of the total; the session counts what was burned.
Between the windows nothing is lost and nothing is won (`fuel_conserved`), although the store's fuel
is overwritten twice in every call.
-/

namespace S4.Runtime

open Lib
open Records (S4Error)
open Pipeline.Codes (wasmFuel wasmDeadline)
open Plugins.Codes (wasmInit)

def wasmReject : String := "wasm.reject"
def wasmCancelled : String := "wasm.cancelled"

/-- The limits that a call reads; all fuel is a `u64`. -/
structure RuntimeLimits where
  cumulativeFuel : Nat
  perCallFuel : Nat
  perCallTimeout : Nat
  cumulativeFuel_le : cumulativeFuel ≤ maxWord 64

/-- `fuel` is what the store holds, `deadline` the one that the callback of the epoch looks at. -/
structure RuntimeSession where
  limits : RuntimeLimits
  objectDeadline : Nat
  deadline : Nat
  fuel : Nat
  fuelConsumed : Nat

structure FuelWindow where
  totalBefore : Nat
  callBudget : Nat

/-- The clock, as it is read one time and then another, and the cancellation token. -/
structure Moment where
  now : Nat
  later : Nat
  cancelled : Bool

/-- Why a guest has not returned. -/
inductive GuestError where
  | outOfFuel
  | other
deriving DecidableEq

def guestFailure (code stage : String) : S4Error :=
  ⟨code, if code = wasmReject then "filter rejected the input"
    else if code = wasmInit then "filter initialization failed"
    else if stage = "finish" then "filter finalization failed" else "filter execution failed"⟩

namespace RuntimeSession

variable {α : Type}

/-- The session that `instantiate` returns, when the start functions have burned their fuel. -/
def new (limits : RuntimeLimits) (objectDeadline beginFuelLimit burned : Nat) : RuntimeSession :=
  let initialFuel := min limits.cumulativeFuel beginFuelLimit
  let remaining := initialFuel - burned
  ⟨limits, objectDeadline, objectDeadline, remaining, initialFuel - remaining⟩

def prepareCall (s : RuntimeSession) (m : Moment) (fuelLimit : Nat) :
    Except S4Error FuelWindow × RuntimeSession :=
  if m.cancelled then (.error ⟨wasmCancelled, "Wasm execution was cancelled"⟩, s)
  else if s.objectDeadline < m.now then
    (.error ⟨wasmDeadline, "Wasm object deadline exceeded"⟩, s)
  else
    let callTimeout := min s.limits.perCallTimeout (s.objectDeadline - m.now)
    let s := { s with deadline := m.later + callTimeout }
    let callBudget := min (min s.fuel s.limits.perCallFuel) fuelLimit
    if callBudget = 0 then (.error ⟨wasmFuel, "Wasm cumulative fuel budget exhausted"⟩, s)
    else (.ok ⟨s.fuel, callBudget⟩, { s with fuel := callBudget })

def completeCall (s : RuntimeSession) (m : Moment) (window : FuelWindow)
    (result : Except GuestError α) (stage defaultCode : String) :
    Except S4Error α × RuntimeSession :=
  let consumed := window.callBudget - s.fuel
  let code (error : GuestError) :=
    if m.cancelled then wasmCancelled
    else if s.deadline ≤ m.now then wasmDeadline
    else if error = .outOfFuel then wasmFuel
    else defaultCode
  (result.mapError fun error => guestFailure (code error) stage,
    { s with
      fuelConsumed := satAdd 64 s.fuelConsumed consumed
      fuel := window.totalBefore - consumed })

end RuntimeSession

/-- A call of the guest: what it finds, and how much of its fuel the guest burns. -/
structure Round (α : Type) where
  fuelLimit : Nat
  opened : Moment
  burns : Nat
  result : Except GuestError α
  closed : Moment
  stage : String
  defaultCode : String

namespace RuntimeSession

variable {α : Type} {s : RuntimeSession}

/-- The guest runs: it only lowers the fuel of the store. -/
def guest (s : RuntimeSession) (burns : Nat) : RuntimeSession := { s with fuel := s.fuel - burns }

def round (s : RuntimeSession) (r : Round α) : RuntimeSession :=
  match s.prepareCall r.opened r.fuelLimit with
  | (.error _, s) => s
  | (.ok window, s) =>
    ((s.guest r.burns).completeCall r.closed window r.result r.stage r.defaultCode).2

/-- What the guest takes from the store in the round: what it finds there less what it leaves. -/
def burned (s : RuntimeSession) (r : Round α) : Nat :=
  match s.prepareCall r.opened r.fuelLimit with
  | (.error _, _) => 0
  | (.ok _, s) => s.fuel - (s.guest r.burns).fuel

def run (s : RuntimeSession) (rounds : List (Round α)) : RuntimeSession := rounds.foldl round s

/-- What is in the store and what was burned make up the fuel of the beginning. -/
def Conserves (limits : RuntimeLimits) (initialFuel : Nat) (s : RuntimeSession) : Prop :=
  s.limits = limits ∧ s.fuelConsumed + s.fuel = initialFuel

/-- A round moves what the guest has burned from the store to the count, within the budget of its
call. -/
theorem round_moves (h : s.fuelConsumed + s.fuel ≤ maxWord 64) (r : Round α) :
    s.burned r ≤ min (min s.fuel s.limits.perCallFuel) r.fuelLimit ∧
      (s.round r).limits = s.limits ∧ (s.round r).fuelConsumed = s.fuelConsumed + s.burned r ∧
      (s.round r).fuel + s.burned r = s.fuel := by
  unfold round burned prepareCall
  split_ifs
  · exact ⟨Nat.zero_le _, rfl, rfl, rfl⟩
  · exact ⟨Nat.zero_le _, rfl, rfl, rfl⟩
  dsimp only
  split_ifs
  · exact ⟨Nat.zero_le _, rfl, rfl, rfl⟩
  -- the window is opened, and the store holds no more than the budget
  generalize hbudget : min (min s.fuel s.limits.perCallFuel) r.fuelLimit = budget
  have hle : budget ≤ s.fuel := by omega
  simp only [guest, completeCall]
  refine ⟨by omega, trivial, ?_, by omega⟩
  exact min_eq_left (by omega)

theorem Conserves.run {limits : RuntimeLimits} {initialFuel : Nat}
    (hword : initialFuel ≤ maxWord 64)
    (h : Conserves limits initialFuel s) (rounds : List (Round α)) :
    Conserves limits initialFuel (s.run rounds) := by
  induction rounds generalizing s with
  | nil => exact h
  | cons r rounds ih =>
    obtain ⟨-, hlimits, hconsumed, hfuel⟩ := round_moves (h.2 ▸ hword) r
    exact ih ⟨hlimits.trans h.1, by rw [hconsumed, ← h.2]; omega⟩

end RuntimeSession

open RuntimeSession

/-- **Fuel is conserved.**  After any rounds, what was burned and what the store holds make up the
initial fuel, and the total is within the cumulative budget.  In the next round the guest takes no
more from the store than it holds, one call may burn and its own limit allows, and just that is
counted and missing afterwards. -/
theorem fuel_conserved {α : Type} (limits : RuntimeLimits)
    (objectDeadline beginFuelLimit burned : Nat) (rounds : List (Round α)) (r : Round α) :
    let s := (new limits objectDeadline beginFuelLimit burned).run rounds
    s.fuelConsumed + s.fuel = min limits.cumulativeFuel beginFuelLimit ∧
      s.fuelConsumed ≤ limits.cumulativeFuel ∧
      s.burned r ≤ min (min s.fuel limits.perCallFuel) r.fuelLimit ∧
      (s.round r).fuelConsumed = s.fuelConsumed + s.burned r ∧
      (s.round r).fuel + s.burned r = s.fuel := by
  intro s
  have hword : min limits.cumulativeFuel beginFuelLimit ≤ maxWord 64 :=
    (min_le_left _ _).trans limits.cumulativeFuel_le
  have hnew : Conserves limits (min limits.cumulativeFuel beginFuelLimit)
      (new limits objectDeadline beginFuelLimit burned) := by
    refine ⟨rfl, ?_⟩
    simp only [new]
    omega
  obtain ⟨hlimits, hsum⟩ : Conserves limits _ s := hnew.run hword rounds
  obtain ⟨hle, -, hmoves⟩ := round_moves (hsum ▸ hword) r
  exact ⟨hsum, by omega, hlimits ▸ hle, hmoves⟩

end S4.Runtime
