import S4.Plugins.Cache

/-!
# Plugins — Capabilities

The capabilities of a component over a run.  A registration or a request with other capabilities
than the cached ones fails, and nothing but an eviction ends what the cache knows.  So two calls can
succeed with different capabilities for one component only if it was evicted in between
(`evicted_component_returns`); where an evicted component comes back with the capabilities that it
had, all successful calls agree (`capabilities_agree`).
-/

namespace S4.Plugins

open Lib List RegistryState World
open Managed (Sha256)
open Records (S4Error)

/-- The evicted entry was one of the component, with these capabilities. -/
def Eviction.Had (e : Eviction) (componentHash : String) (capabilities : PluginCapabilities) :
    Prop :=
  e.victim = componentHash ∧ ∃ entry, e.before.engines.get? componentHash = some entry ∧
    entry.capabilities = capabilities

namespace World

/-- The component is cached with these capabilities, or was evicted with them. -/
def Held (w : World) (componentHash : String) (capabilities : PluginCapabilities) : Prop :=
  (∃ entry, w.registry.engines.get? componentHash = some entry ∧
    entry.capabilities = capabilities) ∨ ∃ e ∈ w.evicted, e.Had componentHash capabilities

/-- Every component has had one set of capabilities. -/
def Agrees (w : World) : Prop :=
  ∀ hash capabilities capabilities', w.Held hash capabilities → w.Held hash capabilities' →
    capabilities = capabilities'

variable {w w' : World} {hash : String} {capabilities : PluginCapabilities}
  {capabilities : PluginCapabilities} {w : World} {hash : String}

/-- A section that ends with evictions only moves entries from the cache to the evicted ones. -/
theorem held_run {α : Type} {x : Section α} : (w.run x).Held hash capabilities ↔
    (∃ entry, x.state.engines.get? hash = some entry ∧ entry.capabilities = capabilities) ∨
      ∃ e ∈ w.evicted, e.Had hash capabilities := by
  cases hevicts : x.evicts with
  | false =>
    simp [Held, run, Section.result, hevicts]
  | true =>
    have hsub := evictFor_keeps
      (P := fun s => ∀ hash entry, s.engines.get? hash = some entry →
        x.state.engines.get? hash = some entry)
      (fun s victim hs _ hash entry hentry => hs hash entry (KeyMap.get?_erase_cases hentry).2)
      x.state.cacheOrder.length x.state fun _ _ h => h
    simp only [Held, run, Section.result, hevicts, if_true]
    constructor
    · rintro (⟨entry, hentry, hcaps⟩ | ⟨e, he, hhad⟩)
      · exact Or.inl ⟨entry, hsub.1 hash entry hentry, hcaps⟩
      · rcases mem_append.mp he with he | he
        · exact Or.inr ⟨e, he, hhad⟩
        · obtain ⟨turn, hturn, rfl⟩ := mem_map.mp he
          obtain ⟨-, entry, hentry, hcaps⟩ := hhad
          exact Or.inl ⟨entry, (hsub.2 turn hturn).1 hash entry hentry, hcaps⟩
    · rintro (⟨entry, hentry, hcaps⟩ | ⟨e, he, hhad⟩)
      · rcases entry_evictFor _ _ hentry with hstill | ⟨turn, hturn, hvictim, hbefore⟩
        · exact Or.inl ⟨entry, hstill, hcaps⟩
        · exact Or.inr ⟨_, mem_append_right _ (mem_map.mpr ⟨turn, hturn, rfl⟩), hvictim,
            entry, hbefore, hcaps⟩
      · exact Or.inr ⟨e, mem_append_left _ he, hhad⟩

end World

/-! ### Effects -/

/-- The effect registers the component with these capabilities. -/
def Effect.Registers (componentHash : String) (capabilities : PluginCapabilities) : Effect → Prop
  | .registerImport i => i.componentHash = componentHash ∧ i.capabilities = capabilities
  | .insertEngine i => i.componentHash = componentHash ∧ i.capabilities = capabilities
  | _ => False

variable {capabilities' capabilities : PluginCapabilities} {e : Effect} {w w' : World}
  {r : Answer e} {hash : String} {engine : FilterEngine} {step : PipelineStep}
  {P : World → Effect → Prop}

theorem Effect.Registers.unique {e : Effect}
    (h : e.Registers hash capabilities) (h' : e.Registers hash capabilities') :
    capabilities = capabilities' := by
  cases e with
  | registerImport i | insertEngine i => exact h.2.symm.trans h'.2
  | _ => cases h

/-- A component that is not cached, and was evicted before, has the capabilities that it had. -/
def Effect.Returns (w : World) (e : Effect) : Prop :=
  ∀ hash capabilities, e.Registers hash capabilities → w.registry.engines.get? hash = none →
    ∀ eviction ∈ w.evicted, ∀ capabilities', eviction.Had hash capabilities' →
      capabilities' = capabilities

/-- The section leaves the entries as they are, or adds one for a component that the effect
registers. -/
def Section.Adds {α : Type} (s : RegistryState) (e : Effect) (x : Section α) : Prop :=
  x.state.engines = s.engines ∨ ∃ hash entry, e.Registers hash entry.capabilities ∧
    s.engines.get? hash = none ∧ x.state.engines = s.engines.insert hash entry

namespace RegistryState

variable {s : RegistryState}

theorem cachedEngine_engines (hash : String) : (s.cachedEngine hash).state.engines = s.engines := by
  rw [cachedEngine]
  split
  · rfl
  · split
    · rfl
    · rfl

theorem registerImport_adds {i : Import} : (s.registerImport i).Adds s (.registerImport i) := by
  rw [registerImport]
  split
  · split
    · exact Or.inl rfl
    · exact Or.inl rfl
  next hnone => exact Or.inr ⟨i.componentHash, _, ⟨rfl, rfl⟩, hnone, rfl⟩

theorem insertEngine_adds {i : Insertion} : (s.insertEngine i).Adds s (.insertEngine i) := by
  rw [insertEngine]
  split
  · split
    · exact Or.inl rfl
    · exact Or.inl rfl
  next hnone => exact Or.inr ⟨i.componentHash, _, ⟨rfl, rfl⟩, hnone, rfl⟩

end RegistryState

/-- **What an effect does to the entries.** -/
theorem Effect.Performs.adds (h : e.Performs w r w') :
    w' = w ∨ ∃ (α : Type) (x : Section α), x.Adds w.registry e ∧ w' = w.run x := by
  cases e with
  | cachedEngine hash => exact Or.inr ⟨_, _, Or.inl (cachedEngine_engines hash), h.2⟩
  | compile component | newId | load hash => exact Or.inl h
  | registerImport => exact Or.inr ⟨_, _, registerImport_adds, h.2⟩
  | insertEngine => exact Or.inr ⟨_, _, insertEngine_adds, h.2⟩
  | setEnabled id enabled | setName id name | remove id => exact Or.inr ⟨_, _, Or.inl rfl, h.2⟩
  | reorder => exact Or.inr ⟨_, _, Or.inl rfl, h⟩

theorem Effect.Performs.held (h : e.Performs w r w') (hheld : w.Held hash capabilities) :
    w'.Held hash capabilities := by
  rcases h.adds with rfl | ⟨α, x, hadds, rfl⟩
  · exact hheld
  · refine held_run.mpr (hheld.imp ?_ id)
    rintro ⟨entry, hentry, hcaps⟩
    refine ⟨entry, ?_, hcaps⟩
    rcases hadds with heq | ⟨hash', entry', -, hnone, heq⟩
    · rw [heq, hentry]
    · have hne : hash ≠ hash' := by
        rintro rfl
        cases hnone.symm.trans hentry
      rw [heq, KeyMap.get?_insert, if_neg hne, hentry]

/-- What is held was held before, or is registered by the effect. -/
theorem Effect.Performs.held_before (h : e.Performs w r w') (hheld : w'.Held hash capabilities) :
    w.Held hash capabilities ∨
      e.Registers hash capabilities ∧ w.registry.engines.get? hash = none := by
  rcases h.adds with rfl | ⟨α, x, hadds, rfl⟩
  · exact Or.inl hheld
  · rcases held_run.mp hheld with ⟨entry, hentry, rfl⟩ | hevicted
    · rcases hadds with heq | ⟨hash', entry', hregisters, hnone, heq⟩
      · exact Or.inl (Or.inl ⟨entry, heq ▸ hentry, rfl⟩)
      · rw [heq] at hentry
        rcases KeyMap.get?_insert_cases hentry with ⟨rfl, rfl⟩ | ⟨-, hentry⟩
        · exact Or.inr ⟨hregisters, hnone⟩
        · exact Or.inl (Or.inl ⟨entry, hentry, rfl⟩)
    · exact Or.inl (Or.inr hevicted)

/-- A registration of what is not cached agrees with the evictions. -/
theorem Effect.Returns.eq_of_held (hreturns : e.Returns w)
    (hregisters : e.Registers hash capabilities) (hnone : w.registry.engines.get? hash = none)
    (hheld : w.Held hash capabilities') : capabilities' = capabilities := by
  rcases hheld with ⟨entry, hentry, -⟩ | ⟨eviction, hmem, hhad⟩
  · cases hnone.symm.trans hentry
  · exact hreturns hash capabilities hregisters hnone eviction hmem capabilities' hhad

theorem Effect.Performs.agrees (h : e.Performs w r w') (hreturns : e.Returns w) (hw : w.Agrees) :
    w'.Agrees := by
  intro hash capabilities capabilities' hheld hheld'
  rcases h.held_before hheld with hold | ⟨hnew, hnone⟩
  · rcases h.held_before hheld' with hold' | ⟨hnew', hnone'⟩
    · exact hw hash _ _ hold hold'
    · exact hreturns.eq_of_held hnew' hnone' hold
  · rcases h.held_before hheld' with hold' | ⟨hnew', -⟩
    · exact (hreturns.eq_of_held hnew hnone hold').symm
    · exact hnew.unique hnew'

/-! ### What is returned -/

theorem held_of_cachedEngine {r : Option (FilterEngine × PluginCapabilities)}
    (h : (Effect.cachedEngine hash).Performs w r w')
    (hr : r = some (engine, capabilities)) : w'.Held hash capabilities := by
  refine h.held (Or.inl ?_)
  obtain ⟨rfl, -⟩ := h
  rw [cachedEngine] at hr
  split at hr
  next => cases hr
  next entry hentry =>
    cases hr
    exact ⟨entry, hentry, rfl⟩

theorem held_of_registerImport {i : Import} {r : Except String PluginInfo} {info : PluginInfo}
    (h : (Effect.registerImport i).Performs w r w') (hr : r = .ok info) :
    w'.Held i.componentHash i.capabilities := by
  obtain ⟨rfl, rfl⟩ := h
  refine held_run.mpr (Or.inl ?_)
  rw [registerImport] at hr ⊢
  split at hr
  next existing hexisting =>
    split at hr
    next => cases hr
    next hcaps =>
      rw [if_neg hcaps]
      exact ⟨existing, hexisting, not_not.mp hcaps⟩
  next => exact ⟨_, KeyMap.get?_insert_self .., rfl⟩

theorem held_of_insertEngine {i : Insertion} {r : Except S4Error FilterEngine}
    (h : (Effect.insertEngine i).Performs w r w') (hr : r = .ok engine) :
    w'.Held i.componentHash i.capabilities := by
  obtain ⟨rfl, rfl⟩ := h
  refine held_run.mpr (Or.inl ?_)
  rw [insertEngine] at hr ⊢
  split at hr
  next existing hexisting =>
    split at hr
    next => cases hr
    next hcaps =>
      rw [if_neg hcaps]
      exact ⟨existing, hexisting, not_not.mp hcaps⟩
  next => exact ⟨_, KeyMap.get?_insert_self .., rfl⟩

/-! ### Runs -/

section Runs

variable [Sha256] {fuel : Nat} {ι α : Type} {i : ι} {call : RegistryCall} {reply : Reply}

/-- The call has registered the component with these capabilities, or has resolved it for them. -/
def RegistryCall.Grants (componentHash : String) (capabilities : PluginCapabilities) :
    RegistryCall → Reply → Prop
  | .importWithCapabilities _ componentBytes caps, .imported (.ok _) =>
    Managed.hexEncode (Sha256.digest componentBytes) = componentHash ∧ caps = capabilities
  | .engineFor step, .engine (.ok _) =>
    step.componentHash = componentHash ∧ step.capabilities = capabilities
  | .insertEngine i, .engine (.ok _) =>
    i.componentHash = componentHash ∧ i.capabilities = capabilities
  | _, _ => False

/-- A call of the log has. -/
def Granted {i : ι} (log : List ((registrySystem fuel ι).Entry i)) (componentHash : String)
    (capabilities : PluginCapabilities) : Prop :=
  ∃ call reply, .finished call reply ∈ log ∧
    RegistryCall.Grants componentHash capabilities call reply

/-- Evicted components return as they were, and what is held stays so. -/
def capabilityDiscipline : Discipline Effect Answer World where
  inv := World.Agrees
  act e w r w' := e.Performs w r w' ∧ e.Returns w
  rely w w' := ∀ hash capabilities, w.Held hash capabilities → w'.Held hash capabilities
  guar w w' := ∀ hash capabilities, w.Held hash capabilities → w'.Held hash capabilities

omit [Sha256] in
theorem capabilityDiscipline_keeps (e : Effect) (w : World) (r : Answer e) (w' : World)
    (hw : w.Agrees) (h : e.Performs w r w' ∧ e.Returns w) :
    w'.Agrees ∧ ∀ hash capabilities, w.Held hash capabilities → w'.Held hash capabilities :=
  ⟨h.1.agrees h.2 hw, fun _ _ => h.1.held⟩

omit [Sha256] in
theorem safe_perform_bind {e : Effect} {f : Answer e → RegistryMethod α}
    {R : Except RegistryError α → Unit → World → Prop}
    (hf : ∀ w r w', e.Performs w r w' → (f r).Safe capabilityDiscipline R () w') :
    (Method.perform e >>= f).Safe capabilityDiscipline R () w :=
  Method.safe_bind.mpr fun w₁ _ hi r w₂ ha =>
    ⟨capabilityDiscipline_keeps e w₁ r w₂ hi ha, hf w₁ r w₂ ha.1⟩

/-- A successful import holds its component. -/
theorem importWithCapabilities_safe {name : String} {componentBytes : Records.Bytes} :
    (importWithCapabilities fuel name componentBytes capabilities).Safe capabilityDiscipline
      (fun r _ w => ∀ info, r = .ok info →
        w.Held (Managed.hexEncode (Sha256.digest componentBytes)) capabilities) () w := by
  rw [importWithCapabilities]
  have hcandidate : ∀ w, (candidateEngine fuel (Managed.hexEncode (Sha256.digest componentBytes))
      componentBytes capabilities).Safe capabilityDiscipline (fun _ _ _ => True) () w :=
    fun w => Prog.safe_of_effects capabilityDiscipline_keeps _ w
  refine Method.safe_bind.mpr ((hcandidate w).mono fun r _ w _ => ?_)
  cases r with
  | error => exact fun info h => by cases h
  | ok =>
    refine safe_perform_bind fun _ id _ _ => safe_perform_bind fun w r w' h => ?_
    refine Method.safe_ofExcept.mpr fun info hr => ?_
    cases r with
    | error => cases hr
    | ok => exact held_of_registerImport h rfl

omit [Sha256] in
theorem insertFetched_safe {bytes : Records.Bytes} :
    (insertFetched fuel step bytes).Safe capabilityDiscipline (fun r _ w => ∀ engine,
    r = .ok engine → w.Held step.componentHash step.capabilities) () w := by
  rw [insertFetched]
  refine safe_perform_bind fun _ compiled _ _ => ?_
  cases compiled with
  | error => exact fun engine h => by cases h
  | ok =>
    refine safe_perform_bind fun w r w' h => Method.safe_ofExcept.mpr fun engine hr => ?_
    cases r with
    | error => cases hr
    | ok => exact held_of_insertEngine h rfl

/-- A successful request holds its component. -/
theorem engineFor_safe :
    (engineFor fuel step).Safe capabilityDiscipline (fun r _ w => ∀ engine, r = .ok engine →
      w.Held step.componentHash step.capabilities) () w := by
  rw [engineFor]
  refine safe_perform_bind fun w cached w' h => ?_
  cases cached with
  | some hit =>
    obtain ⟨engine, registered⟩ := hit
    by_cases hcaps : registered = step.capabilities
    · subst hcaps
      simp only [ne_eq, not_true_eq_false, if_false]
      exact fun _ _ => held_of_cachedEngine h rfl
    · simp only [ne_eq, hcaps, not_false_eq_true, if_true]
      exact fun _ hr => by cases hr
  | none =>
    refine safe_perform_bind fun _ loaded w _ => ?_
    cases loaded with
    | error => exact fun _ hr => by cases hr
    | ok bytes =>
      by_cases hdigest : Managed.hexEncode (Sha256.digest bytes) = step.componentHash
      · simp only [ne_eq, hdigest, not_true_eq_false, if_false]
        exact insertFetched_safe
      · simp only [ne_eq, hdigest, not_false_eq_true, if_true]
        exact fun _ hr => by cases hr

omit [Sha256] in
theorem fallible_safe {m : RegistryMethod α} {reply : Except RegistryError α → Reply}
    {Q : Reply → World → Prop}
    (h : m.Safe capabilityDiscipline (fun r _ w => Q (reply r) w) () w) :
    (fallible reply m).Safe capabilityDiscipline (fun r w => Q r.1 w) w :=
  Prog.safe_bind.mpr h

/-- What a call is granted is held when it returns. -/
theorem RegistryCall.exec_safe (fuel : Nat) (call : RegistryCall) (w : World) :
    (call.exec fuel).Safe capabilityDiscipline (fun r w => ∀ hash capabilities,
      call.Grants hash capabilities r.1 → w.Held hash capabilities) w := by
  cases call with
  | importWithCapabilities =>
    refine fallible_safe (Q := fun reply w => ∀ hash capabilities,
      Grants hash capabilities _ reply → w.Held hash capabilities)
      (importWithCapabilities_safe.mono ?_)
    intro r _ w hr hash capabilities hgrants
    cases r with
    | error => cases hgrants
    | ok info =>
      obtain ⟨rfl, rfl⟩ := hgrants
      exact hr info rfl
  | engineFor =>
    refine fallible_safe (Q := fun reply w => ∀ hash capabilities,
      Grants hash capabilities _ reply → w.Held hash capabilities) (engineFor_safe.mono ?_)
    intro r _ w hr hash capabilities hgrants
    cases r with
    | error => cases hgrants
    | ok engine =>
      obtain ⟨rfl, rfl⟩ := hgrants
      exact hr engine rfl
  | insertEngine =>
    intro w₁ _ hi r w₂ ha
    refine ⟨capabilityDiscipline_keeps _ _ _ _ hi ha, fun hash capabilities hgrants => ?_⟩
    cases r with
    | error => cases hgrants
    | ok =>
      obtain ⟨rfl, rfl⟩ := hgrants
      exact held_of_insertEngine ha.1 rfl
  | _ =>
    -- The other calls grant nothing.
    refine (Prog.safe_of_effects capabilityDiscipline_keeps _ w).mono ?_
    exact fun _ _ _ _ _ hgrants => hgrants.elim

/-- What the calls were granted is held, and all agree on it. -/
def capabilityOutline : (registrySystem fuel ι).Outline where
  inv := World.Agrees
  rely _ := capabilityDiscipline.rely
  guar _ := capabilityDiscipline.guar
  idle _ _ log w := ∀ hash capabilities, Granted log hash capabilities → w.Held hash capabilities

theorem granted_append {log : List ((registrySystem fuel ι).Entry i)}
    (h : Granted (log ++ [.started call] ++ [.finished call reply]) hash capabilities) :
    Granted log hash capabilities ∨ call.Grants hash capabilities reply := by
  obtain ⟨call', reply', hmem, hgrants⟩ := h
  simp only [append_assoc, mem_append, cons_append, nil_append, mem_cons,
    reduceCtorEq, false_or, not_mem_nil, or_false] at hmem
  rcases hmem with hmem | hmem
  · exact Or.inl ⟨call', reply', hmem, hgrants⟩
  · cases hmem
    exact Or.inr hgrants

theorem capabilityOutline_sound : (capabilityOutline : (registrySystem fuel ι).Outline).Sound
    (AgentSystem.EffectsMeet fun w e => e.Returns w) where
  rely_refl _ _ _ _ h := h
  rely_trans _ _ _ _ h h' hash capabilities hheld := h' _ _ (h _ _ hheld)
  guar_rely _ _ _ _ _ _ _ h := h
  drift w w' hw h := by
    obtain rfl : w' = w := h
    exact ⟨hw, fun _ _ _ h => h⟩
  stable _ _ _ _ _ h hrely _ hash capabilities hgranted := hrely _ _ (h _ _ hgranted)
  exec c i op s _ _ _ hidle := by
    have hsafe := (RegistryCall.exec_safe fuel op c.world).keep
      (R := fun w : World => ∀ hash capabilities, Granted (c.log i) hash capabilities →
        w.Held hash capabilities)
      (fun _ _ h _ hR hash capabilities hg => h _ _ (hR _ _ hg))
      (fun _ _ h hR hash capabilities hg => h _ _ (hR _ _ hg)) hidle
    refine (hsafe.mono fun r w hQ hash capabilities hg => ?_).restrict ?_
    · rcases granted_append hg with hg | hg
      · exact hQ.2 _ _ hg
      · exact hQ.1 _ _ hg
    · rintro e w r w' ⟨hp, c', p, rfl, -, hreturns⟩
      exact ⟨hp, hreturns⟩

variable [DecidableEq ι] {c : (registrySystem fuel ι).Config}

/-- **One set of capabilities for a component.**  In every run in which an evicted component is
registered again only with the capabilities that it had, no two successful registrations or
resolutions of one component use different capabilities. -/
theorem capabilities_agree {c : (registrySystem fuel ι).Config}
    (r : Reach (RegistryInit fuel ι) (Guarded (registrySystem fuel ι).Step
      (AgentSystem.EffectsMeet fun w e => e.Returns w)) c)
    {i j : ι} {capabilities' : PluginCapabilities}
    (h : Granted (c.log i) hash capabilities) (h' : Granted (c.log j) hash capabilities') :
    capabilities = capabilities' := by
  have hinit : ∀ c, RegistryInit fuel ι c → capabilityOutline.Holds
      (AgentSystem.EffectsMeet fun w e => e.Returns w) c := by
    rintro c ⟨⟨cacheMaxWeight, hregistry⟩, -, hevicted, hidle, hlogs⟩
    have hnone : ∀ hash capabilities, ¬ c.world.Held hash capabilities := by
      rintro hash capabilities (⟨entry, hentry, -⟩ | ⟨e, he, -⟩)
      · rw [withCache] at hregistry
        split at hregistry
        · cases hregistry
        · rw [← Except.ok.inj hregistry] at hentry
          cases hentry
      · rw [hevicted] at he
        cases he
    refine ⟨fun hash _ _ hheld => absurd hheld (hnone hash _), fun i => ?_⟩
    rw [AgentSystem.Outline.At, hidle i]
    rintro hash capabilities ⟨call, reply, hmem, -⟩
    rw [hlogs i] at hmem
    cases hmem
  have hheld : ∀ (i : ι) hash capabilities, Granted (c.log i) hash capabilities →
      c.world.Held hash capabilities := by
    intro i
    refine capabilityOutline_sound.always hinit (P := fun log w => ∀ hash capabilities,
      Granted log hash capabilities → w.Held hash capabilities) ?_ (fun _ _ _ h => h) ?_ ?_ ?_ r
    · rintro c hc hash capabilities ⟨call, reply, hmem, -⟩
      rw [hc.logs i] at hmem
      cases hmem
    · rintro op log w h hash capabilities ⟨call, reply, hmem, hgrants⟩
      refine h hash capabilities ⟨call, reply, ?_, hgrants⟩
      simpa using hmem
    · exact fun log w w' hg h hash capabilities hlog => hg _ _ (h _ _ hlog)
    · exact fun log w w' hg h hash capabilities hlog => hg _ _ (h _ _ hlog)
  exact (capabilityOutline_sound.reach hinit r).inv hash _ _ (hheld i _ _ h) (hheld j _ _ h')

/-! ### Two requests -/

theorem granted_called
    (h : Granted (c.log i) hash capabilities ∨ call.Grants hash capabilities reply) :
    Granted ((c.called i call reply () w).log i) hash capabilities := by
  refine (congrArg (fun log => Granted log hash capabilities) AgentSystem.Config.called_log).mpr ?_
  rcases h with ⟨call', reply', hmem, hgrants⟩ | hgrants
  · exact ⟨call', reply', mem_append_left _ (mem_append_left _ hmem), hgrants⟩
  · exact ⟨call, reply, mem_append_right _ (mem_singleton_self _), hgrants⟩

/-- The insertion that a request for the component ends with. -/
def fetchedInsertion (fuel : Nat) (bytes : Records.Bytes) (capabilities : PluginCapabilities) :
    Insertion :=
  ⟨Managed.hexEncode (Sha256.digest bytes), FilterEngine.withFuel bytes fuel, capabilities, bytes,
    defaultGuestMemoryBytes⟩

/-- A request for a component that is not cached. -/
theorem reach_engineFor {j : ι} (bytes : Records.Bytes) (capabilities : PluginCapabilities)
    (r : Reach (RegistryInit fuel ι) (Guarded (registrySystem fuel ι).Step
      (AgentSystem.EffectsMeet P)) c) (hidle : c.agent j = .idle ())
    (hnone : c.world.registry.engines.get? (Managed.hexEncode (Sha256.digest bytes)) = none)
    (hP : ∀ e : Effect, (∀ hash caps, e.Registers hash caps → caps = capabilities) → P c.world e) :
    Reach (RegistryInit fuel ι) (Guarded (registrySystem fuel ι).Step (AgentSystem.EffectsMeet P))
      (c.called j (RegistryCall.engineFor ⟨Managed.hexEncode (Sha256.digest bytes), capabilities⟩)
        (Reply.engine (.ok (FilterEngine.withFuel bytes fuel))) ()
        (c.world.inserting (fetchedInsertion fuel bytes capabilities))) := by
  have hcached : (Effect.cachedEngine (Managed.hexEncode (Sha256.digest bytes))).Performs c.world
    none c.world := by
    have hmiss : c.world.registry.cachedEngine (Managed.hexEncode (Sha256.digest bytes)) =
        ⟨none, c.world.registry, none, false⟩ := by
      rw [cachedEngine, hnone]
    refine ⟨?_, ?_⟩
    · rw [hmiss]
    · simp [hmiss, run, Section.result]
  have hinserted : (Effect.insertEngine (fetchedInsertion fuel bytes capabilities)).Performs c.world
      (.ok (FilterEngine.withFuel bytes fuel))
      (c.world.inserting (fetchedInsertion fuel bytes capabilities)) := by
    refine ⟨?_, rfl⟩
    rw [insertEngine, fetchedInsertion, hnone]
  refine AgentSystem.Reach.call_meets j _ r hidle (.call ⟨hcached, hP _ fun _ _ h => h.elim⟩ ?_)
  refine .call (r := .ok bytes) ⟨rfl, hP _ fun _ _ h => h.elim⟩ ?_
  simp only [Prog.bind, ne_eq, not_true_eq_false, if_false]
  refine .call (r := .ok ()) ⟨rfl, hP _ fun _ _ h => h.elim⟩ ?_
  exact .call ⟨hinserted, hP _ fun _ _ h => h.2.symm⟩ .ret

end Runs

/-- A registry with a bound of one byte, after two requests for a component. -/
theorem reach_two_requests (capabilities capabilities' : PluginCapabilities)
    (hP : ∀ e : Effect, (∀ hash caps, e.Registers hash caps → caps = capabilities) → P (.new 1) e)
    (hP' : letI := plainDigest
      ∀ e : Effect, (∀ hash caps, e.Registers hash caps → caps = capabilities') →
        P ((new 1).inserting (fetchedInsertion 1 [] capabilities)) e) :
    letI := plainDigest
    ∃ c, Reach (RegistryInit 1 Unit) (Guarded (registrySystem 1 Unit).Step
      (AgentSystem.EffectsMeet P)) c ∧ Granted (c.log ()) "" capabilities ∧
        Granted (c.log ()) "" capabilities' := by
  let _ := plainDigest
  have hnew : RegistryInit 1 Unit (newRegistry 1) := newRegistry_init (by decide)
  have first := reach_engineFor (j := ()) [] capabilities (.init hnew) rfl rfl hP
  have hgone : ((new 1).inserting (fetchedInsertion 1 [] capabilities)).registry.engines.get?
      (Managed.hexEncode (Sha256.digest [])) = none := by
    obtain ⟨_ | _⟩ := capabilities <;> decide +kernel
  have second := reach_engineFor [] capabilities' first AgentSystem.Config.called_agent hgone hP'
  exact ⟨_, second, granted_called (.inl (granted_called (.inr ⟨rfl, rfl⟩))),
    granted_called (.inr ⟨rfl, rfl⟩)⟩

/-- An evicted component that returns as it was. -/
theorem requests_agree : letI := plainDigest
    ∃ c, Reach (RegistryInit 1 Unit) (registrySystem 1 Unit).Step c ∧
      Granted (c.log ()) "" ⟨true⟩ ∧ ¬ Granted (c.log ()) "" ⟨false⟩ := by
  let _ := plainDigest
  have hreturns : ∀ e : Effect, (∀ hash caps, e.Registers hash caps → caps = ⟨true⟩) →
      e.Returns ((new 1).inserting (fetchedInsertion 1 [] ⟨true⟩)) := by
    intro e he hash caps hregisters _ eviction hmem caps' hhad
    have hinserted : (Effect.insertEngine (fetchedInsertion 1 [] ⟨true⟩)).Performs (.new 1) _
        ((new 1).inserting (fetchedInsertion 1 [] ⟨true⟩)) := ⟨rfl, rfl⟩
    rw [he hash caps hregisters]
    rcases hinserted.held_before (Or.inr ⟨eviction, hmem, hhad⟩) with hheld | ⟨⟨-, hcaps⟩, -⟩
    · rcases hheld with ⟨entry, hentry, -⟩ | ⟨eviction, hmem, -⟩
      · cases hentry
      · cases hmem
    · exact hcaps.symm
  obtain ⟨c, r, hfirst, -⟩ := reach_two_requests (P := fun w e => e.Returns w) ⟨true⟩ ⟨true⟩
    (fun e _ _ _ _ _ eviction hmem => by cases hmem) hreturns
  refine ⟨c, r.of_guarded, hfirst, fun hfalse => ?_⟩
  cases capabilities_agree r hfirst hfalse

/-- **An evicted component that returns with other capabilities.**  Both requests succeed. -/
theorem evicted_component_returns : letI := plainDigest
    ∃ c, Reach (RegistryInit 1 Unit) (registrySystem 1 Unit).Step c ∧
      Granted (c.log ()) "" ⟨false⟩ ∧ Granted (c.log ()) "" ⟨true⟩ := by
  let _ := plainDigest
  obtain ⟨c, r, hfirst, hsecond⟩ := reach_two_requests (P := fun _ _ => True) ⟨false⟩ ⟨true⟩
    (fun _ _ => trivial) fun _ _ => trivial
  exact ⟨c, r.of_guarded, hfirst, hsecond⟩

end S4.Plugins
