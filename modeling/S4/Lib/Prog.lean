import Mathlib

/-!
# Library — Prog — programs over atomic effects

A program returns a value, or performs an effect and continues with the answer (`Prog`).  What an
effect does to the shared world, and which answers it may give, is a relation; between two effects
of a program the world may change under it.

`Prog.Safe D Q p w` says that `p`, started in world `w`, keeps to the discipline `D` on every run,
and ends with `Q`.  The discipline is a rely-guarantee one: before each effect the world may move
along `D.rely` within the invariant; the effect must then keep the invariant and stay within
`D.guar`.  `Prog.safe_bind` is an equivalence, so a program is verified by rewriting along its text;
`Prog.Safe.mono` replaces a call by what was proved of it.

`Method` is the form of a fallible call on an object: it reads and writes the object's state and may
stop with an error, and the state it has written so far stays.
-/

namespace Lib

/-- A program over the effects `E`, whose answers have the types `A`. -/
inductive Prog (E : Type) (A : E → Type) (α : Type) : Type where
  | ret (a : α)
  | call (e : E) (k : A e → Prog E A α)

namespace Prog

variable {E : Type} {A : E → Type} {α β : Type}

def bind : Prog E A α → (α → Prog E A β) → Prog E A β
  | .ret a,    f => f a
  | .call e k, f => .call e fun r => (k r).bind f

instance : Monad (Prog E A) where
  pure := .ret
  bind := bind

/-- Perform one effect. -/
def perform (e : E) : Prog E A (A e) := .call e .ret

end Prog

/-! ### Disciplines -/

/-- What a program may rely on between its effects, and what its effects must keep. -/
structure Discipline (E : Type) (A : E → Type) (W : Type) where
  inv : W → Prop
  act : (e : E) → W → A e → W → Prop
  rely : W → W → Prop
  guar : W → W → Prop

namespace Prog

variable {E W α β : Type} {A : E → Type} {D : Discipline E A W} {Q Q' : α → W → Prop}
  {p : Prog E A α} {f : α → Prog E A β} {w w' : W} {act : (e : E) → W → A e → W → Prop}
  {P : E → Prop}

/-- On every run from `w` the effects keep to the discipline, and the end satisfies `Q`. -/
def Safe (D : Discipline E A W) (Q : α → W → Prop) : Prog E A α → W → Prop
  | .ret a,    w => Q a w
  | .call e k, w => ∀ w₁, D.rely w w₁ → D.inv w₁ → ∀ r w₂, D.act e w₁ r w₂ →
      (D.inv w₂ ∧ D.guar w₁ w₂) ∧ (k r).Safe D Q w₂

theorem safe_bind {R : β → W → Prop} :
    (p >>= f).Safe D R w ↔ p.Safe D (fun a w => (f a).Safe D R w) w := by
  change (p.bind f).Safe D R w ↔ _
  induction p generalizing w with
  | ret => exact Iff.rfl
  | call e k ih =>
    simp only [bind, Safe]
    exact forall₅_congr fun _ _ _ r _ => forall_congr' fun _ => and_congr_right fun _ => ih r

theorem Safe.mono (h : p.Safe D Q w) (hQ : ∀ a w, Q a w → Q' a w) : p.Safe D Q' w := by
  induction p generalizing w with
  | ret a => exact hQ a w h
  | call e k ih =>
    intro w₁ hr hi r w₂ ha
    obtain ⟨hg, hk⟩ := h w₁ hr hi r w₂ ha
    exact ⟨hg, ih r hk⟩

theorem Safe.and (h : p.Safe D Q w) (h' : p.Safe D Q' w) :
    p.Safe D (fun a w => Q a w ∧ Q' a w) w := by
  induction p generalizing w with
  | ret => exact ⟨h, h'⟩
  | call e k ih =>
    intro w₁ hr hi r w₂ ha
    exact ⟨(h w₁ hr hi r w₂ ha).1, ih r (h w₁ hr hi r w₂ ha).2 (h' w₁ hr hi r w₂ ha).2⟩

/-- What a program is safe from survives what it relies on. -/
theorem Safe.rely (htrans : ∀ a b c, D.rely a b → D.rely b c → D.rely a c)
    (hQ : ∀ a w w', Q a w → D.rely w w' → D.inv w' → Q a w') (h : p.Safe D Q w)
    (hr : D.rely w w') (hi : D.inv w') : p.Safe D Q w' := by
  cases p with
  | ret a => exact hQ a w w' h hr hi
  | call => exact fun w₁ h₁ => h w₁ (htrans w w' w₁ hr h₁)

/-- A program stays safe when its effects can do less. -/
theorem Safe.restrict (h : p.Safe D Q w) (hact : ∀ e w r w', act e w r w' → D.act e w r w') :
    p.Safe { D with act } Q w := by
  induction p generalizing w with
  | ret => exact h
  | call e k ih =>
    intro w₁ hr hi r w₂ ha
    obtain ⟨hg, hk⟩ := h w₁ hr hi r w₂ (hact e w₁ r w₂ ha)
    exact ⟨hg, ih r hk⟩

/-- What the discipline keeps on the way is true at the end. -/
theorem Safe.keep {R : W → Prop} (h : p.Safe D Q w)
    (hrely : ∀ w w', D.rely w w' → D.inv w' → R w → R w')
    (hguar : ∀ w w', D.guar w w' → R w → R w') (hR : R w) :
    p.Safe D (fun a w => Q a w ∧ R w) w := by
  induction p generalizing w with
  | ret => exact ⟨h, hR⟩
  | call e k ih =>
    intro w₁ hr hi r w₂ ha
    obtain ⟨hg, hk⟩ := h w₁ hr hi r w₂ ha
    exact ⟨hg, ih r hk (hguar w₁ w₂ hg.2 (hrely w w₁ hr hi hR))⟩

/-! ### Runs of a program -/

/-- A program that runs by itself, with effects that do `act`. -/
inductive Runs (act : (e : E) → W → A e → W → Prop) : Prog E A α → W → α → W → Prop where
  | ret {a : α} {w : W} : Runs act (.ret a) w a w
  | call {e : E} {k : A e → Prog E A α} {w w' w'' : W} {r : A e} {a : α} (h : act e w r w')
      (hk : Runs act (k r) w' a w'') : Runs act (.call e k) w a w''

theorem Runs.mono {act' : (e : E) → W → A e → W → Prop} {a : α}
    (h : p.Runs act w a w') (hact : ∀ e w r w', act e w r w' → act' e w r w') :
    p.Runs act' w a w' := by
  induction h with
  | ret => exact .ret
  | call h _ ih => exact .call (hact _ _ _ _ h) ih

/-! ### The effects of a program -/

/-- Every effect that the program may perform, whatever the answers, is in `P`. -/
def Calls (P : E → Prop) : Prog E A α → Prop
  | .ret _ => True
  | .call e k => P e ∧ ∀ r, (k r).Calls P

theorem calls_bind (hp : p.Calls P) (hf : ∀ a, (f a).Calls P) : (p >>= f).Calls P := by
  change (p.bind f).Calls P
  induction p with
  | ret a => exact hf a
  | call e k ih => exact ⟨hp.1, fun r => ih r (hp.2 r)⟩

/-- If no effect can break the discipline, no program does. -/
theorem safe_of_effects
    (h : ∀ e w r w', D.inv w → D.act e w r w' → D.inv w' ∧ D.guar w w') (p : Prog E A α) (w : W) :
    p.Safe D (fun _ _ => True) w := by
  induction p generalizing w with
  | ret => trivial
  | call e k ih => exact fun w₁ _ hi r w₂ ha => ⟨h e w₁ r w₂ hi ha, ih r w₂⟩

end Prog

/-! ### Methods of an object -/

/-- A call on an object with state `σ` that may stop with an error `ε`. -/
def Method (E : Type) (A : E → Type) (σ ε α : Type) : Type := σ → Prog E A (Except ε α × σ)

namespace Method

variable {E W σ ε α β δ : Type} {A : E → Type} {D : Discipline E A W}
  {Q Q' : Except ε α → σ → W → Prop} {s : σ} {w : W} {m : Method E A σ ε α}
  {f : α → Method E A σ ε β} {R : Except ε β → σ → W → Prop} {e : E} {P : E → Prop}

instance : Monad (Method E A σ ε) where
  pure a := fun s => .ret (.ok a, s)
  bind m f := fun s => (m s).bind fun
    | (.ok a, s) => f a s
    | (.error e, s) => .ret (.error e, s)

instance : MonadExceptOf ε (Method E A σ ε) where
  throw e := fun s => .ret (.error e, s)
  tryCatch m h := fun s => (m s).bind fun
    | (.ok a, s) => .ret (.ok a, s)
    | (.error e, s) => h e s

instance : MonadStateOf σ (Method E A σ ε) where
  get := fun s => .ret (.ok s, s)
  set s := fun _ => .ret (.ok (), s)
  modifyGet f := fun s => .ret (.ok (f s).1, (f s).2)

/-- Perform one effect. -/
def perform (e : E) : Method E A σ ε (A e) :=
  fun s => (Prog.perform e).bind fun r => .ret (.ok r, s)

/-- The error, if the answer of an effect is one. -/
def ofExcept : Except ε α → Method E A σ ε α
  | .ok a => pure a
  | .error e => throw e

/-- Run a call for its result, whatever it is: `let _ = ...` and `match ...` of the source. -/
def attempt {δ : Type} (m : Method E A σ δ α) : Method E A σ ε (Except δ α) :=
  fun s => (m s).bind fun r => .ret (.ok r.1, r.2)

/-- A call on a part of the object. -/
def zoom {τ : Type} (part : σ → τ) (put : τ → σ → σ) (m : Method E A τ ε α) : Method E A σ ε α :=
  fun s => (m (part s)).bind fun r => .ret (r.1, put r.2 s)

/-- On every run the effects keep to the discipline, and the result and the state satisfy `Q`. -/
def Safe (D : Discipline E A W) (Q : Except ε α → σ → W → Prop) (m : Method E A σ ε α) (s : σ)
    (w : W) : Prop :=
  (m s).Safe D (fun r w => Q r.1 r.2 w) w

theorem Safe.mono (h : m.Safe D Q s w) (hQ : ∀ r s w, Q r s w → Q' r s w) : m.Safe D Q' s w :=
  Prog.Safe.mono h fun r w => hQ r.1 r.2 w

theorem safe_bind :
    (m >>= f).Safe D R s w ↔ m.Safe D (fun r s w => match r with
      | .ok a => (f a).Safe D R s w
      | .error e => R (.error e) s w) s w := by
  refine Prog.safe_bind.trans (iff_of_eq (congrArg (fun Q => (m s).Safe D Q w) ?_))
  funext r w
  obtain ⟨r | r, s⟩ := r <;> rfl

theorem safe_get {R : Except ε σ → σ → W → Prop} :
    (get : Method E A σ ε σ).Safe D R s w ↔ R (.ok s) s w := Iff.rfl

theorem safe_modify {f : σ → σ} {R : Except ε Unit → σ → W → Prop} :
    (modify f : Method E A σ ε Unit).Safe D R s w ↔ R (.ok ()) (f s) w := Iff.rfl

theorem safe_perform {R : Except ε (A e) → σ → W → Prop} :
    (perform e : Method E A σ ε (A e)).Safe D R s w ↔ ∀ w₁, D.rely w w₁ → D.inv w₁ →
      ∀ r w₂, D.act e w₁ r w₂ → (D.inv w₂ ∧ D.guar w₁ w₂) ∧ R (.ok r) s w₂ := Iff.rfl

/-- An effect that cannot break the discipline, and whose answer does not matter. -/
theorem safe_perform_of {R : Except ε (A e) → σ → W → Prop}
    (h : ∀ w r w', D.inv w → D.act e w r w' → D.inv w' ∧ D.guar w w')
    (hR : ∀ r w, R (.ok r) s w) : (perform e : Method E A σ ε (A e)).Safe D R s w :=
  fun w₁ _ hi r w₂ ha => ⟨h w₁ r w₂ hi ha, hR r w₂⟩

theorem safe_ofExcept {r : Except ε α} :
    (ofExcept r : Method E A σ ε α).Safe D Q s w ↔ Q r s w := by
  cases r <;> exact Iff.rfl

theorem safe_attempt {m : Method E A σ δ α} {R : Except ε (Except δ α) → σ → W → Prop} :
    (attempt m : Method E A σ ε (Except δ α)).Safe D R s w ↔
      m.Safe D (fun r s w => R (.ok r) s w) s w :=
  Prog.safe_bind

theorem safe_zoom {τ : Type} {part : σ → τ} {put : τ → σ → σ} {m : Method E A τ ε α} :
    (zoom part put m).Safe D Q s w ↔ m.Safe D (fun r t w => Q r (put t s) w) (part s) w :=
  Prog.safe_bind

/-! ### Invariants of an object -/

/-- The call keeps what is true of its object in the world. -/
def Keeps (D : Discipline E A W) (I : σ → W → Prop) (m : Method E A σ ε α) : Prop :=
  ∀ s w, I s w → m.Safe D (fun _ s w => I s w) s w

section Keeps

variable {I : σ → W → Prop}

theorem keeps_pure (a : α) : (pure a : Method E A σ ε α).Keeps D I := fun _ _ h => h

theorem keeps_throw (e : ε) : (throw e : Method E A σ ε α).Keeps D I := fun _ _ h => h

theorem keeps_ofExcept (r : Except ε α) : (ofExcept r : Method E A σ ε α).Keeps D I :=
  fun _ _ h => safe_ofExcept.mpr h

theorem keeps_modify {f : σ → σ} (h : ∀ s w, I s w → I (f s) w) :
    (modify f : Method E A σ ε Unit).Keeps D I := h

/-- A call that keeps `I`, and what comes after it. -/
theorem Keeps.safe_bind (hm : m.Keeps D I) (h : I s w)
    (hf : ∀ a s w, I s w → (f a).Safe D R s w) (he : ∀ e s w, I s w → R (.error e) s w) :
    (m >>= f).Safe D R s w := by
  rw [Method.safe_bind]
  refine (hm s w h).mono fun r s w h => ?_
  cases r with
  | ok a => exact hf a s w h
  | error e => exact he e s w h

/-- After a call that keeps `I`, it is enough that what comes keeps it or has the result `Q`. -/
theorem Keeps.safe_bind_or {Q : Except ε β → Prop} (hm : m.Keeps D I) (h : I s w)
    (hf : ∀ a s w, I s w → (f a).Safe D (fun r s w => I s w ∨ Q r) s w) :
    (m >>= f).Safe D (fun r s w => I s w ∨ Q r) s w :=
  hm.safe_bind h hf fun _ _ _ => .inl

theorem Keeps.bind (hm : m.Keeps D I) (hf : ∀ a, (f a).Keeps D I) : (m >>= f).Keeps D I :=
  fun _ _ h => hm.safe_bind h (fun a => hf a) fun _ _ _ h => h

/-- A call that reads its object may use what is true of it. -/
theorem Keeps.get_bind {f : σ → Method E A σ ε β}
    (hf : ∀ s w, I s w → (f s).Safe D (fun _ s w => I s w) s w) : (get >>= f).Keeps D I :=
  fun s w h => Method.safe_bind.mpr (hf s w h)

theorem keeps_get_bind {f : σ → Method E A σ ε β} (hf : ∀ s, (f s).Keeps D I) :
    (get >>= f).Keeps D I :=
  .get_bind fun s w h => hf s s w h

theorem Keeps.attempt {m : Method E A σ δ α} (hm : m.Keeps D I) :
    (Method.attempt m : Method E A σ ε (Except δ α)).Keeps D I :=
  fun s w h => safe_attempt.mpr (hm s w h)

/-- An effect keeps what survives the moves of the world. -/
theorem keeps_perform (hrely : ∀ s w w', D.rely w w' → D.inv w' → I s w → I s w')
    (hguar : ∀ s w r w', D.inv w → D.act e w r w' → I s w → (D.inv w' ∧ D.guar w w') ∧ I s w') :
    (perform e : Method E A σ ε (A e)).Keeps D I :=
  fun s w h w₁ hr hi r w₂ ha => hguar s w₁ r w₂ hi ha (hrely s w w₁ hr hi h)

end Keeps

/-! ### The effects of a method -/

/-- Every effect that the call may perform, from any state and whatever the answers, is in `P`. -/
def Calls (P : E → Prop) (m : Method E A σ ε α) : Prop := ∀ s, (m s).Calls P

theorem calls_pure (a : α) : (pure a : Method E A σ ε α).Calls P := fun _ => trivial

theorem calls_throw (e : ε) : (throw e : Method E A σ ε α).Calls P := fun _ => trivial

theorem calls_get : (get : Method E A σ ε σ).Calls P := fun _ => trivial

theorem calls_bind (hm : m.Calls P) (hf : ∀ a, (f a).Calls P) : (m >>= f).Calls P := by
  intro s
  refine Prog.calls_bind (hm s) fun r => ?_
  obtain ⟨r | a, s⟩ := r
  · exact trivial
  · exact hf a s

theorem calls_perform (h : P e) : (perform e : Method E A σ ε (A e)).Calls P :=
  fun _ => ⟨h, fun _ => trivial⟩

theorem calls_ofExcept (r : Except ε α) : (ofExcept r : Method E A σ ε α).Calls P := by
  cases r with
  | ok a => exact calls_pure a
  | error e => exact calls_throw e

end Method

end Lib
