import Mathlib

/-!
# Library — Transducer — machines that read symbol by symbol

A transducer reads one symbol at a time; it puts out symbols, moves to another state, or fails.
`run` reads a word and stops at the first failure.  Reading in pieces is reading at once
(`run_append`).  What every step keeps about the symbols read so far, those put out and the state,
holds after every run (`run_history`).
-/

namespace Lib

variable {σ α β ε : Type*} {x : α} {e : ε}

/-- One symbol: the symbols put out and the next state, or a failure. -/
abbrev Transducer (σ α β ε : Type*) : Type _ := σ → α → Except ε (List β × σ)

namespace Transducer

variable (step : Transducer σ α β ε)

/-- Read the symbols in order. -/
def run : σ → List α → Except ε (List β × σ)
  | s, [] => .ok ([], s)
  | s, x :: xs => do
    let (out, s) ← step s x
    let (outs, s) ← run s xs
    return (out ++ outs, s)

variable {step} {s s' : σ} {xs : List α} {out : List β}

theorem run_cons_ok (h : step s x = .ok (out, s')) (xs : List α) :
    run step s (x :: xs) = (run step s' xs).map fun e => (out ++ e.1, e.2) := by
  simp only [run, h, bind, Except.bind]
  cases run step s' xs <;> rfl

theorem run_cons_error (h : step s x = .error e) (xs : List α) :
    run step s (x :: xs) = .error e := by
  simp only [run, h]
  rfl

theorem run_append (s : σ) (xs ys : List α) :
    run step s (xs ++ ys) =
      run step s xs >>= fun e => (run step e.2 ys).map fun e' => (e.1 ++ e'.1, e'.2) := by
  induction xs generalizing s with
  | nil =>
    simp only [List.nil_append, run, bind, Except.bind]
    cases run step s ys <;> rfl
  | cons x xs ih =>
    rw [List.cons_append]
    cases hx : step s x with
    | error => simp only [run_cons_error hx, bind, Except.bind]
    | ok e =>
      simp only [run_cons_ok hx, ih]
      cases run step e.2 xs with
      | error => rfl
      | ok e' =>
        simp only [bind, Except.bind, Except.map]
        cases run step e'.2 ys <;> simp

theorem run_append_error (h : run step s xs = .error e) (ys : List α) :
    run step s (xs ++ ys) = .error e := by
  rw [run_append, h]
  rfl

theorem run_append_ok (h : run step s xs = .ok (out, s')) (ys : List α) :
    run step s (xs ++ ys) = (run step s' ys).map fun e => (out ++ e.1, e.2) := by
  rw [run_append, h]
  rfl

/-- **The history rule.**  What holds of nothing read and every step keeps, holds of every run. -/
theorem run_history {P : List α → List β → σ → Prop} (hinit : P [] [] s)
    (hstep : ∀ {read out s x out' s'}, P read out s → step s x = .ok (out', s') →
      P (read ++ [x]) (out ++ out') s') (h : run step s xs = .ok (out, s')) : P xs out s' := by
  -- the run is taken from any point of the history
  have hrun : ∀ xs {read seen s out s'}, P read seen s → run step s xs = .ok (out, s') →
      P (read ++ xs) (seen ++ out) s' := by
    intro xs
    induction xs with
    | nil =>
      intro read seen s out s' hP h
      cases h
      simpa using hP
    | cons x xs ih =>
      intro read seen s out s' hP h
      cases hx : step s x with
      | error =>
        rw [run_cons_error hx] at h
        cases h
      | ok e =>
        rw [run_cons_ok hx] at h
        cases hxs : run step e.2 xs with
        | error =>
          rw [hxs] at h
          cases h
        | ok =>
          rw [hxs] at h
          cases h
          have := ih (hstep hP hx) hxs
          simpa using this
  exact hrun xs hinit h

/-- What every step keeps about the state. -/
theorem run_invariant {I : σ → Prop} (hstep : ∀ {s x out s'}, I s → step s x = .ok (out, s') → I s')
    (hs : I s) (h : run step s xs = .ok (out, s')) : I s' :=
  run_history (P := fun _ _ s => I s) hs hstep h

end Transducer

end Lib
