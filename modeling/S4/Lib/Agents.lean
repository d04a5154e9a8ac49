import S4.Lib.Prog
import S4.Lib.Reach

/-!
# Library — Agents — objects that run programs over a shared world

A system has agents, each an object with a state of its own (`AgentSystem`).  An idle agent may be
called at any time with any operation; it then runs the operation's program, one effect at a time,
interleaved with the others in any order, and becomes idle again with a result.  The world may also
drift by itself.  Every agent keeps a log of the calls it was given and the results it returned.

`Outline` is a proof outline: an invariant of the world, what each agent relies on and guarantees,
and what is true of an idle agent.  If every operation, started idle, is `Prog.Safe` and ends idle
(`Outline.Sound`), then in every run every agent is where its outline says (`Outline.Sound.reach`).
-/

namespace Lib

open Function

/-- Agents `ι` over the world `W`, with effects `E` answered in `A`. -/
structure AgentSystem (ι : Type) (E : Type) (A : E → Type) (W : Type) where
  State : ι → Type
  Op : ι → Type
  Result : ι → Type
  exec : (i : ι) → Op i → State i → Prog E A (Result i × State i)
  perform : ι → (e : E) → W → A e → W → Prop
  drift : W → W → Prop

namespace AgentSystem

variable {ι E : Type} {A : E → Type} {W : Type} {i : ι}

/-- What an agent is doing. -/
inductive Activity (S : AgentSystem ι E A W) (i : ι) where
  | idle (s : S.State i)
  | busy (op : S.Op i) (p : Prog E A (S.Result i × S.State i))

/-- A call that an agent was given, or its return. -/
inductive Entry (S : AgentSystem ι E A W) (i : ι) where
  | started (op : S.Op i)
  | finished (op : S.Op i) (result : S.Result i)

structure Config (S : AgentSystem ι E A W) where
  world : W
  agent : (i : ι) → S.Activity i
  log : (i : ι) → List (S.Entry i)

/-- What happens in one step. -/
inductive Happening (S : AgentSystem ι E A W) where
  | start (i : ι) (op : S.Op i)
  | act (i : ι) (e : E)
  | finish (i : ι) (op : S.Op i) (result : S.Result i)
  | drift

variable (S : AgentSystem ι E A W)

inductive Step [DecidableEq ι] : S.Config → S.Happening → S.Config → Prop where
  | start {c : S.Config} {i : ι} {s : S.State i} (op : S.Op i) (h : c.agent i = .idle s) :
      Step c (.start i op) ⟨c.world, update c.agent i (.busy op (S.exec i op s)),
        update c.log i (c.log i ++ [.started op])⟩
  | act {c : S.Config} {i : ι} {op : S.Op i} {e : E}
      {k : A e → Prog E A (S.Result i × S.State i)} {r : A e} {w : W}
      (h : c.agent i = .busy op (.call e k)) (hp : S.perform i e c.world r w) :
      Step c (.act i e) ⟨w, update c.agent i (.busy op (k r)), c.log⟩
  | finish {c : S.Config} {i : ι} {op : S.Op i} {result : S.Result i} {s : S.State i}
      (h : c.agent i = .busy op (.ret (result, s))) :
      Step c (.finish i op result) ⟨c.world, update c.agent i (.idle s),
        update c.log i (c.log i ++ [.finished op result])⟩
  | drift {c : S.Config} {w : W} (h : S.drift c.world w) : Step c .drift ⟨w, c.agent, c.log⟩

/-! ### Proof outlines -/

/-- An invariant of the world, the steps that the agent relies on and guarantees, and what is true
of it between two calls. -/
structure Outline where
  inv : W → Prop
  rely : ι → W → W → Prop
  guar : ι → W → W → Prop
  idle : (i : ι) → S.State i → List (S.Entry i) → W → Prop

variable {S}

/-- The discipline of agent `i` in the operation `op`, with its effects restricted to those that the
condition allows. -/
def Outline.discipline (O : S.Outline) (C : S.Config → S.Happening → Prop) (i : ι) (op : S.Op i) :
    Discipline E A W where
  inv := O.inv
  act e w r w' := S.perform i e w r w' ∧
    ∃ (c : S.Config) (p : _), c.world = w ∧ c.agent i = .busy op p ∧ C c (.act i e)
  rely := O.rely i
  guar := O.guar i

/-- The operations keep to the outline in the steps that meet the condition `C`. -/
structure Outline.Sound (O : S.Outline) (C : S.Config → S.Happening → Prop) : Prop where
  rely_refl : ∀ i w, O.rely i w w
  rely_trans : ∀ i a b c, O.rely i a b → O.rely i b c → O.rely i a c
  guar_rely : ∀ i j w w', i ≠ j → O.inv w → O.inv w' → O.guar i w w' → O.rely j w w'
  drift : ∀ w w', O.inv w → S.drift w w' → O.inv w' ∧ ∀ i, O.rely i w w'
  stable : ∀ i s log w w', O.idle i s log w → O.rely i w w' → O.inv w' → O.idle i s log w'
  exec : ∀ (c : S.Config) i op s, c.agent i = .idle s → C c (.start i op) → O.inv c.world →
    O.idle i s (c.log i) c.world →
    (S.exec i op s).Safe (O.discipline C i op) (fun r w =>
      O.idle i r.2 (c.log i ++ [.started op] ++ [.finished op r.1]) w) c.world

/-- The agent is where the outline says. -/
def Outline.At (O : S.Outline) (C : S.Config → S.Happening → Prop) (c : S.Config) (i : ι) : Prop :=
  match c.agent i with
  | .idle s => O.idle i s (c.log i) c.world
  | .busy op p => p.Safe (O.discipline C i op) (fun r w =>
    O.idle i r.2 (c.log i ++ [.finished op r.1]) w) c.world

/-- The invariant holds, and every agent is where the outline says. -/
structure Outline.Holds (O : S.Outline) (C : S.Config → S.Happening → Prop) (c : S.Config) :
    Prop where
  inv : O.inv c.world
  agents : ∀ i, O.At C c i

variable {O : S.Outline} {C : S.Config → S.Happening → Prop}

variable {c c' : S.Config}

/-- An agent stays where it is while the world moves along what it relies on. -/
theorem Outline.Sound.at_rely (h : O.Sound C) (hat : O.At C c i)
    (ha : c'.agent i = c.agent i) (hl : c'.log i = c.log i) (hr : O.rely i c.world c'.world)
    (hi : O.inv c'.world) : O.At C c' i := by
  unfold Outline.At at hat ⊢
  rw [ha, hl]
  split at hat
  · exact h.stable i _ _ _ _ hat hr hi
  · exact Prog.Safe.rely (h.rely_trans i) (fun r w w' hq hr' hi' => h.stable i _ _ _ _ hq hr' hi')
      hat hr hi

variable {w : W}

/-- An effect keeps to the discipline, and the program goes on from there. -/
theorem Outline.Sound.act (h : O.Sound C) {op : S.Op i} {e : E}
    {k : A e → Prog E A (S.Result i × S.State i)} {r : A e} (hc : O.Holds C c)
    (ha : c.agent i = .busy op (.call e k)) (hp : S.perform i e c.world r w) (hC : C c (.act i e)) :
    (O.inv w ∧ O.guar i c.world w) ∧ (k r).Safe (O.discipline C i op) (fun r w =>
      O.idle i r.2 (c.log i ++ [.finished op r.1]) w) w := by
  have hbusy := hc.agents i
  unfold Outline.At at hbusy
  rw [ha] at hbusy
  exact hbusy c.world (h.rely_refl i _) hc.inv r w ⟨hp, c, _, rfl, ha, hC⟩

variable [DecidableEq ι]

theorem Outline.Sound.step (h : O.Sound C) {e : S.Happening}
    (hc : O.Holds C c) (hs : S.Step c e c') (hC : C c e) : O.Holds C c' := by
  cases hs with
  | @start i s op ha =>
    refine ⟨hc.inv, fun j => ?_⟩
    by_cases hj : j = i
    · subst hj
      have hidle := hc.agents j
      unfold Outline.At at hidle ⊢
      rw [ha] at hidle
      simp only [update_self]
      exact h.exec c j op s ha hC hc.inv hidle
    · exact h.at_rely (hc.agents j) (update_of_ne hj _ _)
        (update_of_ne hj _ _) (h.rely_refl j _) hc.inv
  | @act i op e k r w ha hp =>
    obtain ⟨⟨hi, hg⟩, hk⟩ := h.act hc ha hp hC
    refine ⟨hi, fun j => ?_⟩
    by_cases hj : j = i
    · subst hj
      unfold Outline.At
      simp only [update_self]
      exact hk
    · exact h.at_rely (hc.agents j) (update_of_ne hj _ _) rfl
        (h.guar_rely i j _ _ (Ne.symm hj) hc.inv hi hg) hi
  | @finish i op result s ha =>
    refine ⟨hc.inv, fun j => ?_⟩
    by_cases hj : j = i
    · subst hj
      have hbusy := hc.agents j
      unfold Outline.At at hbusy ⊢
      rw [ha] at hbusy
      simp only [update_self]
      exact hbusy
    · exact h.at_rely (hc.agents j) (update_of_ne hj _ _)
        (update_of_ne hj _ _) (h.rely_refl j _) hc.inv
  | @drift w hd =>
    obtain ⟨hi, hr⟩ := h.drift c.world w hc.inv hd
    exact ⟨hi, fun j => h.at_rely (hc.agents j) rfl rfl (hr j) hi⟩

variable {Init : S.Config → Prop}

/-- **In every run whose steps meet the condition, every agent is where the outline says.** -/
theorem Outline.Sound.reach (h : O.Sound C)
    (hinit : ∀ c, Init c → O.Holds C c) (r : Reach Init (Guarded S.Step C) c) :
    O.Holds C c :=
  r.invariant (I := O.Holds C) hinit fun _ _ _ _ hc hs => h.step hc hs.1 hs.2

/-- What is true of an agent's log when it is idle, and kept by every move of the world, is true of
its log at any time. -/
theorem Outline.Sound.always (h : O.Sound C)
    (hinit : ∀ c, Init c → O.Holds C c) {P : List (S.Entry i) → W → Prop}
    (hP : ∀ c, Init c → P (c.log i) c.world)
    (hidle : ∀ s log w, O.idle i s log w → P log w)
    (hstart : ∀ op log w, P log w → P (log ++ [.started op]) w)
    (hguar : ∀ log w w', O.guar i w w' → P log w → P log w')
    (hrely : ∀ log w w', O.rely i w w' → P log w → P log w')
    (r : Reach Init (Guarded S.Step C) c) : P (c.log i) c.world := by
  induction r with
  | init hi => exact hP _ hi
  | @step c c' e r hs ih =>
    have hc := h.reach hinit r
    have hc' := h.step hc hs.1 hs.2
    obtain ⟨hs, hC⟩ := hs
    cases hs with
    | @start j s op ha =>
      by_cases hj : j = i
      · subst hj
        simpa only [update_self] using hstart op _ _ ih
      · simpa only [update_of_ne (Ne.symm hj)] using ih
    | @act j op e k r w ha hp =>
      obtain ⟨⟨hi, hg⟩, -⟩ := h.act hc ha hp hC
      by_cases hj : j = i
      · subst hj
        exact hguar _ _ _ hg ih
      · exact hrely _ _ _ (h.guar_rely j i _ _ hj hc.inv hi hg) ih
    | @finish j op result s ha =>
      by_cases hj : j = i
      · subst hj
        have hat := hc'.agents j
        unfold Outline.At at hat
        simp only [update_self] at hat ⊢
        exact hidle s _ _ hat
      · simpa only [update_of_ne (Ne.symm hj)] using ih
    | @drift w hd => exact hrely _ _ _ ((h.drift _ _ hc.inv hd).2 i) ih

/-! ### Invariants of the world -/

/-- A condition on the effects of the agents. -/
def EffectsMeet (P : W → E → Prop) (c : S.Config) : S.Happening → Prop
  | .act _ e => P c.world e
  | _ => True

/-- **What every effect keeps holds in every run.** -/
theorem world_invariant {P : W → E → Prop} {I : W → Prop}
    (hinit : ∀ c, Init c → I c.world)
    (hact : ∀ i e w r w', S.perform i e w r w' → P w e → I w → I w')
    (hdrift : ∀ w w', S.drift w w' → I w → I w')
    (r : Reach Init (Guarded S.Step (EffectsMeet P)) c) : I c.world := by
  refine r.invariant (I := fun c => I c.world) hinit fun c e c' _ hc hstep => ?_
  obtain ⟨hs, hP⟩ := hstep
  cases hs with
  | start => exact hc
  | act h hp => exact hact _ _ _ _ _ hp hP hc
  | finish => exact hc
  | drift h => exact hdrift _ _ h hc

/-- The condition that every effect meets. -/
theorem reach_effectsMeet (r : Reach Init S.Step c) :
    Reach Init (Guarded S.Step (EffectsMeet fun _ _ => True)) c := by
  refine r.mono fun c e c' hs => ⟨hs, ?_⟩
  cases e with
  | act => trivial
  | start => trivial
  | finish => trivial
  | drift => trivial

/-! ### A call that runs undisturbed -/

/-- The configuration in which the agent is idle again after a call. -/
def Config.called (c : S.Config) (i : ι) (op : S.Op i) (result : S.Result i) (s : S.State i)
    (w : W) : S.Config :=
  ⟨w, update c.agent i (.idle s),
    update c.log i (c.log i ++ [.started op] ++ [.finished op result])⟩

theorem Config.called_agent {op : S.Op i} {result : S.Result i}
    {s : S.State i} : (c.called i op result s w).agent i = .idle s :=
  update_self ..

theorem Config.called_log {op : S.Op i} {result : S.Result i}
    {s : S.State i} :
    (c.called i op result s w).log i = c.log i ++ [.started op] ++ [.finished op result] :=
  update_self ..

omit [DecidableEq ι] in
/-- The calls that have returned, after one more. -/
theorem Entry.finished_mem_append {op op' : S.Op i} {r r' : S.Result i}
    {log : List (S.Entry i)} :
    .finished op r ∈ log ++ [.started op'] ++ [.finished op' r'] ↔
      Entry.finished op r ∈ log ∨ (op = op' ∧ r' = r) := by
  simp [eq_comm]

theorem Config.finished_mem_called {op op' : S.Op i} {r r' : S.Result i}
    {s : S.State i} : .finished op r ∈ (c.called i op' r' s w).log i ↔
      Entry.finished op r ∈ c.log i ∨ (op = op' ∧ r' = r) := by
  rw [called_log, Entry.finished_mem_append]

/-- A program that runs by itself takes the busy agent to its end. -/
theorem Reach.finish {op : S.Op i}
    {p : Prog E A (S.Result i × S.State i)} {x : S.Result i × S.State i} {w' : W}
    (hp : p.Runs (fun e w r w' => S.perform i e w r w' ∧ ∀ c : S.Config, c.world = w →
    C c (.act i e)) w x w')
    (r : Reach Init (Guarded S.Step C) ⟨w, update c.agent i (.busy op p),
      update c.log i (c.log i ++ [.started op])⟩)
    (hC : ∀ c : S.Config, C c (.finish i op x.1)) :
    Reach Init (Guarded S.Step C) (c.called i op x.1 x.2 w') := by
  induction hp with
  | @ret a w =>
    obtain ⟨result, s⟩ := a
    have := r.step ⟨.finish (update_self i _ _), hC _⟩
    simpa [Config.called] using this
  | @call e k w w₁ w₂ a x h hk ih =>
    refine ih ?_ hC
    have := r.step ⟨.act (update_self i _ _) h.1, h.2 _ rfl⟩
    simpa using this

theorem Reach.call (i : ι) (op : S.Op i) {s : S.State i}
    {x : S.Result i × S.State i} (r : Reach Init (Guarded S.Step C) c)
    (h : c.agent i = .idle s) (hstart : C c (.start i op))
    (hp : (S.exec i op s).Runs
      (fun e w r w' => S.perform i e w r w' ∧ ∀ c : S.Config, c.world = w → C c (.act i e))
      c.world x w)
    (hC : ∀ c : S.Config, C c (.finish i op x.1)) :
    Reach Init (Guarded S.Step C) (c.called i op x.1 x.2 w) :=
  Reach.finish hp (r.step ⟨.start op h, hstart⟩) hC

/-- A call that runs by itself, with effects that meet the condition. -/
theorem Reach.call_meets {P : W → E → Prop} (i : ι) (op : S.Op i) {s s' : S.State i}
    {result : S.Result i} (r : Reach Init (Guarded S.Step (EffectsMeet P)) c)
    (h : c.agent i = .idle s)
    (hp : (S.exec i op s).Runs (fun e w r w' => S.perform i e w r w' ∧ P w e) c.world (result, s')
    w) :
    Reach Init (Guarded S.Step (EffectsMeet P)) (c.called i op result s' w) := by
  refine Reach.call i op r h trivial (hp.mono fun e w r w' h => ⟨h.1, fun c hc => ?_⟩) fun _ =>
    trivial
  rw [EffectsMeet, hc]
  exact h.2

end AgentSystem

end Lib
