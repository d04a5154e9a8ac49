import Mathlib

/-!
# Library — Stages — machines in series

A stage is a machine with a state: it takes an item and passes one on or drops it, and at the end it
may give out one more (`Stage`).  Run by itself it maps lists to lists (`Running.run`).

Stages in series can be run item by item: every item is pushed through all of them before the next
one comes, and at the end they are flushed one after another, what a stage still gives out being
pushed through those behind it (`drive`).  That is the same as running the first on the whole input,
the second on what it gives out, and so on (`drive_cons`), so a series can be cut anywhere
(`drive_append`).
-/

namespace Lib

variable {α : Type}

structure Stage (α : Type) where
  State : Type
  step : State → α → State × Option α
  flush : State → Option α

/-- A stage in some state. -/
structure Running (α : Type) where
  stage : Stage α
  state : stage.State

namespace Running

/-- The stage after an item, and what it passes on. -/
def step (r : Running α) (x : α) : Running α × Option α :=
  (⟨r.stage, (r.stage.step r.state x).1⟩, (r.stage.step r.state x).2)

def flush (r : Running α) : Option α := r.stage.flush r.state

/-- The stage by itself, on a whole input. -/
def run (r : Running α) : List α → List α
  | [] => r.flush.toList
  | x :: xs => (r.step x).2.toList ++ run (r.step x).1 xs

end Running

/-- One item, through all stages or as far as it gets. -/
def push : List (Running α) → α → List (Running α) × Option α
  | [],        x => ([], some x)
  | r :: rest, x =>
    match (r.step x).2 with
    | none => ((r.step x).1 :: rest, none)
    | some y => ((r.step x).1 :: (push rest y).1, (push rest y).2)

theorem push_length (rs : List (Running α)) (x : α) : (push rs x).1.length = rs.length := by
  induction rs generalizing x with
  | nil => rfl
  | cons r rest ih =>
    rw [push]
    cases (r.step x).2 with
    | none => rfl
    | some y => exact congrArg (· + 1) (ih y)

/-- The stages are flushed in order, each through those behind it. -/
def flushAll : List (Running α) → List α
  | [] => []
  | r :: rest =>
    match r.flush with
    | none => flushAll rest
    | some x => (push rest x).2.toList ++ flushAll (push rest x).1
termination_by rs => rs.length
decreasing_by
  · simp
  · simp [push_length]

/-- The stages item by item, and their end. -/
def drive (rs : List (Running α)) : List α → List α
  | [] => flushAll rs
  | x :: xs => (push rs x).2.toList ++ drive (push rs x).1 xs

theorem drive_nil (xs : List α) : drive [] xs = xs := by
  induction xs with
  | nil => rw [drive, flushAll]
  | cons x xs ih => rw [drive, push, ih, Option.toList_some, List.singleton_append]

/-- **The first stage may run on the whole input before the others start.** -/
theorem drive_cons (r : Running α) (rest : List (Running α)) (xs : List α) :
    drive (r :: rest) xs = drive rest (r.run xs) := by
  induction xs generalizing r rest with
  | nil =>
    rw [drive, flushAll, Running.run]
    cases r.flush with
    | none => rfl
    | some => rfl
  | cons x xs ih =>
    rw [drive, push, Running.run]
    cases (r.step x).2 with
    | none => exact ih _ _
    | some =>
      rw [Option.toList_some, List.singleton_append, drive]
      exact congrArg _ (ih _ _)

/-- **Stages in series can be cut anywhere**: the first ones run to their end, and the others on
what they give out. -/
theorem drive_append (rs rs' : List (Running α)) (xs : List α) :
    drive (rs ++ rs') xs = drive rs' (drive rs xs) := by
  induction rs generalizing xs with
  | nil => rw [List.nil_append, drive_nil]
  | cons r rest ih => rw [List.cons_append, drive_cons, ih, drive_cons]

end Lib
