import Mathlib

/-!
# Library — Reach — states reachable by labelled steps

A system is a set of initial states and a labelled step relation.  `Reach` is the set of states its
runs pass through, and `Reach.invariant` the induction every safety proof below is an instance of:
what holds initially and survives one step, taken in a reachable state, holds in every reachable
state.

A condition on a run is a condition `C s e` on the label `e` of a step and the state `s` before it.
`Guarded Step C` keeps the steps that meet it, so `Reach Init (Guarded Step C)` is the set of states
reached by the runs all of whose steps meet `C`; such a run is a run (`Reach.of_guarded`).
-/

namespace Lib

variable {σ ε : Type} {Init I : σ → Prop} {Step Step' : σ → ε → σ → Prop} {C : σ → ε → Prop} {s : σ}

/-- The states reached by the runs of a system. -/
inductive Reach (Init : σ → Prop) (Step : σ → ε → σ → Prop) : σ → Prop where
  | init {s : σ} (h : Init s) : Reach Init Step s
  | step {s s' : σ} {e : ε} (r : Reach Init Step s) (h : Step s e s') : Reach Init Step s'

/-- The steps whose label and source state meet `C`. -/
def Guarded (Step : σ → ε → σ → Prop) (C : σ → ε → Prop) (s : σ) (e : ε) (s' : σ) : Prop :=
  Step s e s' ∧ C s e

/-- **The invariant rule.** -/
theorem Reach.invariant (h₀ : ∀ s, Init s → I s)
    (h : ∀ s e s', Reach Init Step s → I s → Step s e s' → I s') (r : Reach Init Step s) : I s := by
  induction r with
  | init hi => exact h₀ _ hi
  | step r hs ih => exact h _ _ _ r ih hs

theorem Reach.mono (h : ∀ s e s', Step s e s' → Step' s e s')
    (r : Reach Init Step s) : Reach Init Step' s := by
  induction r with
  | init hi => exact .init hi
  | step _ hs ih => exact .step ih (h _ _ _ hs)

theorem Reach.trans {s' : σ} (r : Reach Init Step s) (r' : Reach (· = s) Step s') :
    Reach Init Step s' := by
  induction r' with
  | init h => exact h ▸ r
  | step _ hs ih => exact .step ih hs

theorem Reach.of_guarded (r : Reach Init (Guarded Step C) s) : Reach Init Step s :=
  r.mono fun _ _ _ h => h.1

/-! ### Scripts -/

section Scripts

variable {δ : Type} {next : σ → δ → σ} {allows : σ → δ → Bool} {inputs : List δ}

/-- Every input of the script is allowed in the state that it finds. -/
def plays (next : σ → δ → σ) (allows : σ → δ → Bool) (s : σ) : List δ → Bool
  | [] => true
  | d :: rest => allows s d && plays next allows (next s d) rest

/-- **A script of inputs that are allowed is a run.** -/
theorem Reach.script (r : Reach Init Step s) (h : plays next allows s inputs = true)
    (hstep : ∀ s, ∀ d ∈ inputs, allows s d = true → ∃ e, Step s e (next s d)) :
    Reach Init Step (inputs.foldl next s) := by
  induction inputs generalizing s with
  | nil => exact r
  | cons d rest ih =>
    simp only [plays, Bool.and_eq_true] at h
    obtain ⟨e, he⟩ := hstep s d List.mem_cons_self h.1
    exact ih (.step r he) h.2 fun s d hd => hstep s d (List.mem_cons_of_mem _ hd)

end Scripts

end Lib
