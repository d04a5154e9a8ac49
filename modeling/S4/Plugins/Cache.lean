import S4.Plugins.Registry

/-!
# Plugins — Cache

The compile cache over any interleaving of calls.  A section keeps the three collections in step
(`Consistent`), the order in the order of the last uses (`ByRecency`) and the cache within its bound
unless every component is pinned (`Settled`); the turns of the eviction loop do the same, and each
of them takes the component that was used longest ago among those that are not pinned.

The weight is added up in a `usize` that stops at its maximum.  It is never more than the sum of the
weights, and it is the sum as long as no insertion goes beyond the maximum.
-/

namespace S4.Plugins

open Lib List KeyMap RegistryState
open Managed (Sha256)

variable {entry : CacheEntry} {α : Type} {e : Effect} {uses : List String} {plugin : Plugin}
  {answer : α} {evicts : Bool} {x : Section α} {r : Answer e} {P : World → Effect → Prop}
  {id : String}

namespace RegistryState

def Cached (s : RegistryState) (componentHash : String) : Prop :=
  ∃ entry, s.engines.get? componentHash = some entry

/-- The sum of the weights of the cached entries. -/
def totalWeight (s : RegistryState) : Nat := s.engines.sumBy fun _ entry => entry.weight

/-- The order has the cached components, and every plugin of the catalog has its component cached,
with its engine and its capabilities. -/
structure Consistent (s : RegistryState) : Prop where
  mem_order : ∀ hash, hash ∈ s.cacheOrder ↔ s.Cached hash
  pinned : ∀ id plugin, s.plugins.get? id = some plugin →
    ∃ entry, s.engines.get? plugin.componentHash = some entry ∧ entry.engine = plugin.engine ∧
      entry.capabilities = plugin.capabilities
  weight_le : s.cacheWeight ≤ s.totalWeight

/-- The cache is within its bound, or every cached component is pinned. -/
def Settled (s : RegistryState) : Prop :=
  s.cacheWeight ≤ s.cacheMaxWeight ∨ ∀ hash, s.Cached hash → s.referenced hash = true

variable {s : RegistryState} {hash victim : String}

theorem referenced_iff : s.referenced hash = true ↔
    ∃ id plugin, s.plugins.get? id = some plugin ∧ plugin.componentHash = hash := by
  simp only [referenced, any_eq_true_iff, beq_iff_eq]

/-! ### The turns of the eviction loop -/

theorem nextVictim_some (h : s.nextVictim = some victim) :
    s.victim = some victim ∧ s.cacheMaxWeight < s.cacheWeight := by
  rw [nextVictim] at h
  split at h
  next hover => exact ⟨h, hover⟩
  next => cases h

theorem victim_some (h : s.victim = some victim) :
    victim ∈ s.cacheOrder ∧ s.referenced victim = false ∧ s.Cached victim := by
  have hp := find?_some h
  simp only [Bool.and_eq_true, Bool.not_eq_true', KeyMap.contains, Option.isSome_iff_exists] at hp
  exact ⟨mem_of_find?_eq_some h, hp.1, hp.2⟩

theorem settled_of_nextVictim (hs : s.Consistent) (h : s.nextVictim = none) : s.Settled := by
  rw [nextVictim] at h
  split at h
  next =>
    refine Or.inr fun hash hcached => ?_
    have hnot := find?_eq_none.mp h hash ((hs.mem_order hash).mpr hcached)
    simpa [KeyMap.contains, Option.isSome_iff_exists.mpr hcached] using hnot
  next hover => exact Or.inl (not_lt.mp hover)

theorem cached_evict {v : String} : (s.evict v).Cached hash ↔ hash ≠ v ∧ s.Cached hash := by
  simp only [Cached, evict, get?_erase]
  by_cases hv : hash = v
  · simp [hv]
  · simp [hv]

theorem totalWeight_evict (h : s.engines.get? victim = some entry) :
    (s.evict victim).totalWeight + entry.weight = s.totalWeight := by
  have hsum := s.engines.sumBy_erase victim fun _ entry => entry.weight
  rwa [h, Option.elim_some] at hsum

theorem cacheWeight_evict (h : s.engines.get? victim = some entry) :
    (s.evict victim).cacheWeight = s.cacheWeight - entry.weight := by
  simp only [evict, h]

theorem Consistent.evict (hs : s.Consistent) (hnodup : s.cacheOrder.Nodup)
    (h : s.nextVictim = some victim) : (s.evict victim).Consistent := by
  obtain ⟨-, hfree, entry, hentry⟩ := victim_some (nextVictim_some h).1
  refine ⟨fun hash => ?_, fun id plugin hplugin => ?_, ?_⟩
  · rw [cached_evict, ← hs.mem_order hash]
    exact hnodup.mem_erase_iff
  · obtain ⟨e, he, hsame⟩ := hs.pinned id plugin hplugin
    refine ⟨e, ?_, hsame⟩
    have hne : plugin.componentHash ≠ victim := by
      rintro rfl
      have hreferenced : s.referenced plugin.componentHash = true :=
        referenced_iff.mpr ⟨id, plugin, hplugin, rfl⟩
      exact Bool.false_ne_true (hfree.symm.trans hreferenced)
    simpa only [RegistryState.evict, get?_erase, if_neg hne] using he
  · have htotal := totalWeight_evict hentry
    have hle := hs.weight_le
    rw [cacheWeight_evict hentry]
    omega

/-- **The rule for the loop.**  What its turns keep holds after it, and before each of its turns. -/
theorem evictFor_keeps {P : RegistryState → Prop}
    (hP : ∀ s victim, P s → s.nextVictim = some victim → P (s.evict victim)) :
    ∀ turns s, P s → P (evictFor turns s) ∧
      ∀ turn ∈ evictionsFor turns s, P turn.1 ∧ turn.1.nextVictim = some turn.2
  | 0, s, hs => ⟨hs, by simp [evictionsFor]⟩
  | turns + 1, s, hs => by
    simp only [evictFor, evictionsFor]
    split
    next => exact ⟨hs, by simp⟩
    next victim hvictim =>
    obtain ⟨hend, hturns⟩ := evictFor_keeps hP turns (s.evict victim) (hP s victim hs hvictim)
    refine ⟨hend, fun turn hturn => ?_⟩
    rcases mem_cons.mp hturn with rfl | hturn
    · exact ⟨hs, hvictim⟩
    · exact hturns turn hturn

theorem nextVictim_evictFor : ∀ turns (s : RegistryState), s.cacheOrder.length ≤ turns →
    (evictFor turns s).nextVictim = none
  | 0, s, h => by
    have hnil : s.cacheOrder = [] := length_eq_zero_iff.mp (Nat.le_zero.mp h)
    simp [evictFor, nextVictim, victim, hnil]
  | turns + 1, s, h => by
    simp only [evictFor]
    split
    next hnone => exact hnone
    next victim hvictim =>
    refine nextVictim_evictFor turns _ ?_
    have hmem := (victim_some (nextVictim_some hvictim).1).1
    have hpos := length_pos_of_mem hmem
    simp only [RegistryState.evict, length_erase_of_mem hmem]
    omega

/-- An entry is still there, or was evicted by a turn. -/
theorem entry_evictFor : ∀ turns (s : RegistryState) {hash : String} {entry : CacheEntry},
    s.engines.get? hash = some entry → (evictFor turns s).engines.get? hash = some entry ∨
      ∃ turn ∈ evictionsFor turns s, turn.2 = hash ∧ turn.1.engines.get? hash = some entry
  | 0, s, hash, entry, h => Or.inl h
  | turns + 1, s, hash, entry, h => by
    simp only [evictFor, evictionsFor]
    split
    next => exact Or.inl h
    next victim hvictim =>
    by_cases hv : hash = victim
    · exact Or.inr ⟨_, mem_cons_self, hv.symm, h⟩
    · have hkept : (s.evict victim).engines.get? hash = some entry := by
        simpa only [RegistryState.evict, get?_erase, if_neg hv] using h
      rcases entry_evictFor turns (s.evict victim) hkept with hend | ⟨turn, hmem, hturn⟩
      · exact Or.inl hend
      · exact Or.inr ⟨turn, mem_cons_of_mem _ hmem, hturn⟩

/-- The state after the loop, and the turns. -/
theorem evicted_spec (hs : s.Consistent) (hrecent : ByRecency uses s.cacheOrder) :
    s.evictUnreferencedEngines.Consistent ∧ ByRecency uses s.evictUnreferencedEngines.cacheOrder ∧
      s.evictUnreferencedEngines.Settled ∧
      ∀ turn ∈ s.evictions, (turn.1.Consistent ∧ ByRecency uses turn.1.cacheOrder) ∧
        turn.1.nextVictim = some turn.2 := by
  obtain ⟨⟨hend, horder⟩, hturns⟩ := evictFor_keeps
    (P := fun s => s.Consistent ∧ ByRecency uses s.cacheOrder)
    (fun s victim h hvictim => ⟨h.1.evict h.2.nodup hvictim, h.2.erase victim⟩)
    s.cacheOrder.length s ⟨hs, hrecent⟩
  exact ⟨hend, horder, settled_of_nextVictim hend (nextVictim_evictFor _ s le_rfl), hturns⟩

/-! ### Sections -/

theorem Consistent.touch (hs : s.Consistent) (hcached : s.Cached hash) :
    (s.touchCacheEntry hash).Consistent := by
  refine ⟨fun other => ?_, hs.pinned, hs.weight_le⟩
  have hmem : other ∈ (s.touchCacheEntry hash).cacheOrder ↔ other = hash ∨ other ∈ s.cacheOrder :=
    mem_touch
  rw [hmem, hs.mem_order other]
  constructor
  · rintro (rfl | h)
    · exact hcached
    · exact h
  · exact Or.inr

theorem cached_insertEntry {other : String} :
    (s.insertEntry hash entry).Cached other ↔ other = hash ∨ s.Cached other := by
  simp only [Cached, insertEntry, get?_insert]
  by_cases h : other = hash
  · simp [h]
  · simp [h]

theorem totalWeight_insertEntry (h : s.engines.get? hash = none) :
    (s.insertEntry hash entry).totalWeight = s.totalWeight + entry.weight := by
  have hsum := s.engines.sumBy_insert hash entry fun _ entry => entry.weight
  rw [h] at hsum
  exact hsum

theorem Consistent.insert_touch (hs : s.Consistent) (h : s.engines.get? hash = none) :
    ((s.insertEntry hash entry).touchCacheEntry hash).Consistent := by
  refine ⟨fun other => ?_, fun id plugin hplugin => ?_, ?_⟩
  · exact mem_touch.trans ((or_congr_right (hs.mem_order other)).trans cached_insertEntry.symm)
  · obtain ⟨e, he, hsame⟩ := hs.pinned id plugin hplugin
    refine ⟨e, ?_, hsame⟩
    have hne : plugin.componentHash ≠ hash := by
      rintro rfl
      rw [h] at he
      cases he
    simpa only [touchCacheEntry, insertEntry, get?_insert, if_neg hne] using he
  · calc (s.insertEntry hash entry).cacheWeight
      _ ≤ s.cacheWeight + entry.weight := min_le_left _ _
      _ ≤ s.totalWeight + entry.weight := Nat.add_le_add_right hs.weight_le _
      _ = (s.insertEntry hash entry).totalWeight := (totalWeight_insertEntry h).symm

theorem Consistent.insertPlugin (hs : s.Consistent)
    (hentry : s.engines.get? plugin.componentHash = some entry)
    (hengine : entry.engine = plugin.engine)
    (hcaps : entry.capabilities = plugin.capabilities) : (s.insertPlugin plugin).Consistent := by
  refine ⟨hs.mem_order, fun id other hother => ?_, hs.weight_le⟩
  obtain ⟨-, rfl⟩ | ⟨-, hother⟩ := get?_insert_cases hother
  · exact ⟨entry, hentry, hengine, hcaps⟩
  · exact hs.pinned id other hother

end RegistryState

/-- What a section keeps, when it is run in the state. -/
structure Section.Sound {α : Type} (s : RegistryState) (x : Section α) : Prop where
  consistent : s.Consistent → x.state.Consistent
  recent : s.Consistent → ∀ uses, ByRecency uses s.cacheOrder →
    ByRecency (uses ++ x.touched.toList) x.state.cacheOrder
  settled : x.evicts = false → s.Settled → x.state.Settled
  entries : ∀ hash entry, s.engines.get? hash = some entry → x.state.engines.get? hash = some entry
  touched : ∀ hash ∈ x.touched, x.state.Cached hash

namespace RegistryState

variable {s : RegistryState} {hash : String}

theorem sound_same : Section.Sound s ⟨answer, s, none, false⟩ where
  consistent hs := hs
  recent _ uses h := by simpa using h
  settled _ h := h
  entries _ _ h := h
  touched _ h := by cases h

theorem sound_touch (hcached : s.Cached hash) :
    Section.Sound s ⟨answer, s.touchCacheEntry hash, some hash, false⟩ where
  consistent hs := hs.touch hcached
  recent _ uses h := h.touch hash
  settled _ h := h
  entries _ _ h := h
  touched other h := by
    cases h
    exact hcached

theorem cachedEngine_sound (hs : s.Consistent) : (s.cachedEngine hash).Sound s := by
  rw [cachedEngine]
  split
  next => exact sound_same
  next entry hentry =>
  rw [if_pos ((hs.mem_order hash).mpr ⟨entry, hentry⟩)]
  exact sound_touch ⟨entry, hentry⟩

theorem sound_insert (h : s.engines.get? hash = none) :
    Section.Sound s ⟨answer, (s.insertEntry hash entry).touchCacheEntry hash, some hash, true⟩ where
  consistent hs := hs.insert_touch h
  recent _ uses h := h.touch hash
  settled h := by cases h
  entries other e he := by
    have hne : other ≠ hash := by
      rintro rfl
      cases h.symm.trans he
    simpa only [touchCacheEntry, insertEntry, get?_insert, if_neg hne] using he
  touched other h := by
    cases h
    exact cached_insertEntry.mpr (Or.inl rfl)

theorem insertEngine_sound {i : Insertion} : (s.insertEngine i).Sound s := by
  rw [insertEngine]
  split
  next existing hexisting =>
    split
    · exact sound_same
    · exact sound_touch ⟨existing, hexisting⟩
  next hnone => exact sound_insert hnone

/-- A section goes on to add a plugin whose component is cached. -/
theorem sound_insertPlugin {s' : RegistryState} {touched : Option String}
    (h : Section.Sound s ⟨answer, s', touched, evicts⟩)
    (hentry : s'.engines.get? plugin.componentHash = some entry)
    (hengine : entry.engine = plugin.engine)
    (hcaps : entry.capabilities = plugin.capabilities) :
    Section.Sound s ⟨answer, s'.insertPlugin plugin, touched, true⟩ where
  consistent hs := (h.consistent hs).insertPlugin hentry hengine hcaps
  recent := h.recent
  settled h := by cases h
  entries := h.entries
  touched := h.touched

theorem registerImport_sound {i : Import} : (s.registerImport i).Sound s := by
  rw [registerImport]
  split
  next existing hexisting =>
    split
    · exact sound_same
    next hcaps =>
    exact sound_insertPlugin (sound_touch ⟨existing, hexisting⟩) hexisting rfl (not_not.mp hcaps)
  next hnone =>
  exact sound_insertPlugin (sound_insert hnone) (get?_insert_self ..) rfl rfl

/-- A section that changes the catalog only, and leaves its components as they are. -/
theorem sound_catalog {plugins : KeyMap String Plugin} {order : List String}
    (h : ∀ id plugin, plugins.get? id = some plugin → ∃ id' plugin',
    s.plugins.get? id' = some plugin' ∧
      plugin'.componentHash = plugin.componentHash ∧ plugin'.engine = plugin.engine ∧
      plugin'.capabilities = plugin.capabilities)
    (hback : evicts = false → ∀ id plugin, s.plugins.get? id = some plugin →
      ∃ id' plugin', plugins.get? id' = some plugin' ∧
        plugin'.componentHash = plugin.componentHash) :
    Section.Sound s ⟨answer, { s with plugins, order }, none, evicts⟩ where
  consistent hs := by
    refine ⟨hs.mem_order, fun id plugin hplugin => ?_, hs.weight_le⟩
    obtain ⟨id', plugin', hplugin', hhash, hengine, hcaps⟩ := h id plugin hplugin
    obtain ⟨entry, hentry, hentryEngine, hentryCaps⟩ := hs.pinned id' plugin' hplugin'
    exact ⟨entry, hhash ▸ hentry, hentryEngine.trans hengine, hentryCaps.trans hcaps⟩
  recent _ uses h := by simpa using h
  settled hevicts hsettled := by
    refine hsettled.imp id fun hall hash hcached => ?_
    obtain ⟨id, plugin, hplugin, rfl⟩ := referenced_iff.mp (hall hash hcached)
    obtain ⟨id', plugin', hplugin', hhash⟩ := hback hevicts id plugin hplugin
    exact referenced_iff.mpr ⟨id', plugin', hplugin', hhash⟩
  entries _ _ h := h
  touched _ h := by cases h

theorem updateInfo_sound {f : PluginInfo → PluginInfo} : (s.updateInfo id f).Sound s := by
  refine sound_catalog (fun id' plugin hplugin => ?_) fun _ id' plugin hplugin => ?_
  · obtain ⟨-, plugin', hplugin', rfl⟩ | ⟨-, hplugin⟩ := get?_modify_cases hplugin
    · exact ⟨id, plugin', hplugin', rfl, rfl, rfl⟩
    · exact ⟨id', plugin, hplugin, rfl, rfl, rfl⟩
  · by_cases hid : id' = id
    · subst hid
      exact ⟨id', { plugin with info := f plugin.info },
        by rw [get?_modify, if_pos rfl, hplugin, Option.map_some], rfl⟩
    · exact ⟨id', plugin, by rw [get?_modify, if_neg hid, hplugin], rfl⟩

theorem remove_sound : (s.remove id).Sound s := by
  refine sound_catalog (fun id' plugin hplugin => ?_) fun habsent id' plugin hplugin => ?_
  · exact ⟨id', plugin, (get?_erase_cases hplugin).2, rfl, rfl, rfl⟩
  · have hne : id' ≠ id := by
      rintro rfl
      simp [KeyMap.contains, hplugin] at habsent
    exact ⟨id', plugin, by rw [get?_erase, if_neg hne, hplugin], rfl⟩

theorem reorder_sound {ids : List String} : (s.reorder ids).Sound s :=
  sound_catalog (fun id plugin h => ⟨id, plugin, h, rfl, rfl, rfl⟩)
    fun _ id plugin h => ⟨id, plugin, h, rfl⟩

end RegistryState

/-! ### Runs -/

/-- The component was cached and not pinned, and was used longest ago of all such components. -/
structure Eviction.LeastRecent (e : Eviction) : Prop where
  cached : e.before.Cached e.victim
  unreferenced : e.before.referenced e.victim = false
  oldest : ∀ hash, e.before.Cached hash → e.before.referenced hash = false → hash ≠ e.victim →
    UsedBefore e.uses e.victim hash

/-- What is true of the cache at any time.  A component that was ever used is cached, or was
evicted. -/
structure World.Tended (w : World) : Prop where
  consistent : w.registry.Consistent
  settled : w.registry.Settled
  recent : ByRecency w.uses w.registry.cacheOrder
  accounted : ∀ hash ∈ w.uses, w.registry.Cached hash ∨ ∃ e ∈ w.evicted, e.victim = hash
  evictions : ∀ e ∈ w.evicted, e.LeastRecent

/-- A turn of the loop evicts the component that was used longest ago. -/
theorem leastRecent_of_turn {s : RegistryState} {victim : String}
    (hs : s.Consistent) (hrecent : ByRecency uses s.cacheOrder) (h : s.nextVictim = some victim) :
    Eviction.LeastRecent ⟨s, uses, victim⟩ := by
  obtain ⟨hvictim, -⟩ := nextVictim_some h
  obtain ⟨-, hfree, hcached⟩ := victim_some hvictim
  refine ⟨hcached, hfree, fun hash hhash hunreferenced hne => ?_⟩
  refine hrecent.find?_first hvictim ((hs.mem_order hash).mpr hhash) ?_ hne
  simp [hunreferenced, KeyMap.contains, Option.isSome_iff_exists.mpr hhash]

namespace World

variable {w w' : World}

theorem Tended.run (hw : w.Tended) (hx : x.Sound w.registry) : (w.run x).Tended := by
  have hstate := hx.consistent hw.consistent
  have hrecent := hx.recent hw.consistent _ hw.recent
  have hknown : ∀ hash ∈ w.uses ++ x.touched.toList,
      x.state.Cached hash ∨ ∃ e ∈ w.evicted, e.victim = hash := by
    intro hash hmem
    rcases mem_append.mp hmem with hmem | hmem
    · refine (hw.accounted hash hmem).imp ?_ id
      rintro ⟨entry, hentry⟩
      exact ⟨entry, hx.entries hash entry hentry⟩
    · exact Or.inl (hx.touched hash (Option.mem_toList.mp hmem))
  cases hevicts : x.evicts with
  | false =>
    simp only [World.run, Section.result, hevicts, Bool.false_eq_true, if_false, append_nil]
    exact ⟨hstate, hx.settled hevicts hw.settled, hrecent, hknown, hw.evictions⟩
  | true =>
    obtain ⟨hend, horder, hsettled, hturns⟩ := evicted_spec hstate hrecent
    simp only [World.run, Section.result, hevicts, if_true]
    refine ⟨hend, hsettled, horder, fun hash hmem => ?_, fun e he => ?_⟩
    · rcases hknown hash hmem with ⟨entry, hentry⟩ | ⟨e, he, hvictim⟩
      · rcases entry_evictFor _ _ hentry with hstill | ⟨turn, hturn, rfl, -⟩
        · exact Or.inl ⟨entry, hstill⟩
        · exact Or.inr ⟨_, mem_append_right _ (mem_map.mpr ⟨turn, hturn, rfl⟩), rfl⟩
      · exact Or.inr ⟨e, mem_append_left _ he, hvictim⟩
    · rcases mem_append.mp he with he | he
      · exact hw.evictions e he
      · obtain ⟨turn, hturn, rfl⟩ := mem_map.mp he
        obtain ⟨⟨hs, hr⟩, hvictim⟩ := hturns turn hturn
        exact leastRecent_of_turn hs hr hvictim

end World

/-- **What an effect does**: nothing to the registry, or one sound section. -/
theorem Effect.Performs.cases {w w' : World} (h : e.Performs w r w') (hw : w.registry.Consistent) :
    w' = w ∨ ∃ (α : Type) (x : Section α), x.Sound w.registry ∧ w' = w.run x := by
  cases e with
  | cachedEngine => exact Or.inr ⟨_, _, cachedEngine_sound hw, h.2⟩
  | compile => exact Or.inl h
  | newId => exact Or.inl h
  | load => exact Or.inl h
  | registerImport => exact Or.inr ⟨_, _, registerImport_sound, h.2⟩
  | insertEngine => exact Or.inr ⟨_, _, insertEngine_sound, h.2⟩
  | setEnabled => exact Or.inr ⟨_, _, updateInfo_sound, h.2⟩
  | setName => exact Or.inr ⟨_, _, updateInfo_sound, h.2⟩
  | remove => exact Or.inr ⟨_, _, remove_sound, h.2⟩
  | reorder => exact Or.inr ⟨_, _, reorder_sound, h⟩

theorem Effect.Performs.tended {w w' : World} (h : e.Performs w r w')
    (hw : w.Tended) : w'.Tended := by
  rcases h.cases hw.consistent with rfl | ⟨α, x, hx, rfl⟩
  · exact hw
  · exact hw.run hx

/-! ### The weight -/

namespace RegistryState

variable {s : RegistryState}

/-- The weight is the sum of the weights. -/
def Exact (s : RegistryState) : Prop := s.cacheWeight = s.totalWeight

/-- If the component is not cached, its weight can be added without going beyond the maximum. -/
def HasRoom (s : RegistryState) (componentHash : String) (weight : Nat) : Prop :=
  s.engines.get? componentHash = none → s.cacheWeight + weight ≤ maxWord usizeBits

theorem Exact.evict {victim : String} (hs : s.Exact) (h : s.nextVictim = some victim) :
    (s.evict victim).Exact := by
  obtain ⟨-, -, entry, hentry⟩ := victim_some (nextVictim_some h).1
  have htotal := totalWeight_evict hentry
  rw [Exact, cacheWeight_evict hentry, hs]
  omega

theorem Exact.insertEntry {hash : String} (hs : s.Exact)
    (hnone : s.engines.get? hash = none) (hroom : s.HasRoom hash entry.weight) :
    (s.insertEntry hash entry).Exact := by
  rw [Exact, totalWeight_insertEntry hnone, ← hs]
  exact min_eq_left (hroom hnone)

end RegistryState

theorem Section.exact_result (h : x.state.Exact) : x.result.Exact := by
  rw [Section.result]
  split
  · exact (evictFor_keeps (P := RegistryState.Exact) (fun _ _ hs => hs.evict) _ _ h).1
  · exact h

/-- The insertions have room. -/
def Effect.HasRoom (w : World) : Effect → Prop
  | .registerImport i => w.registry.HasRoom i.componentHash i.candidate.guestMemoryLimit
  | .insertEngine i => w.registry.HasRoom i.componentHash i.weight
  | _ => True

theorem Effect.Performs.exact {w w' : World} (h : e.Performs w r w')
    (hroom : e.HasRoom w) (hw : w.registry.Exact) : w'.registry.Exact := by
  cases e with
  | cachedEngine =>
    obtain ⟨-, rfl⟩ := h
    refine Section.exact_result ?_
    rw [RegistryState.cachedEngine]
    split
    · exact hw
    split
    · exact hw
    · exact hw
  | compile component | newId | load hash =>
    obtain rfl := h
    exact hw
  | registerImport =>
    obtain ⟨-, rfl⟩ := h
    refine Section.exact_result ?_
    rw [RegistryState.registerImport]
    split
    · split
      · exact hw
      · exact hw
    next hnone => exact hw.insertEntry hnone hroom
  | insertEngine =>
    obtain ⟨-, rfl⟩ := h
    refine Section.exact_result ?_
    rw [RegistryState.insertEngine]
    split
    · split
      · exact hw
      · exact hw
    next hnone => exact hw.insertEntry hnone hroom
  | setEnabled id enabled | setName id name | remove id =>
    obtain ⟨-, rfl⟩ := h
    exact Section.exact_result hw
  | reorder =>
    obtain rfl := h
    exact Section.exact_result hw

section Runs

variable [Sha256] {fuel : Nat} {ι : Type} {c : (registrySystem fuel ι).Config}

theorem RegistryInit.tended (h : RegistryInit fuel ι c) :
    c.world.Tended ∧ c.world.registry.Exact := by
  obtain ⟨⟨cacheMaxWeight, hregistry⟩, huses, hevicted, -, -⟩ := h
  rw [withCache] at hregistry
  split at hregistry
  · cases hregistry
  obtain hempty := Except.ok.inj hregistry
  have hnone : ∀ hash, ¬ c.world.registry.Cached hash := by
    rintro hash ⟨entry, hentry⟩
    rw [← hempty] at hentry
    cases hentry
  refine ⟨⟨⟨fun hash => ?_, fun id plugin hplugin => ?_, ?_⟩, Or.inr fun hash h =>
    absurd h (hnone hash), ?_, ?_, ?_⟩, ?_⟩
  · rw [← hempty]
    simp [RegistryState.Cached]
  · rw [← hempty] at hplugin
    cases hplugin
  · rw [← hempty]
    exact Nat.zero_le _
  · rw [← hempty]
    exact ByRecency.nil
  · simp [huses]
  · simp [hevicted]
  · rw [← hempty]
    rfl

variable [DecidableEq ι]

/-- **The compile cache.**  In every run of callers of a registry, at any time: the order lists each
cached component once and nothing else; every plugin of the catalog has its component cached; the
weight is not more than the sum of the weights; the cache is within its bound, or every cached
component is pinned; and every component that was evicted was the least recently used one that was
not pinned.  As long as no insertion goes beyond the maximum of a `usize`, the weight is the sum. -/
theorem compile_cache_integrity :
    (∀ c, Reach (RegistryInit fuel ι) (registrySystem fuel ι).Step c →
      c.world.registry.cacheOrder.Nodup ∧ c.world.Tended) ∧
    ∀ c, Reach (RegistryInit fuel ι) (Guarded (registrySystem fuel ι).Step
      (AgentSystem.EffectsMeet fun w e => e.HasRoom w)) c →
        c.world.registry.cacheWeight = c.world.registry.totalWeight := by
  refine ⟨fun c r => ?_, fun c r => ?_⟩
  · have htended : c.world.Tended :=
      AgentSystem.world_invariant (fun c h => (RegistryInit.tended h).1)
      (fun i e w r w' h _ hw => Effect.Performs.tended h hw)
      (fun w w' (h : w' = w) hw => h ▸ hw) (AgentSystem.reach_effectsMeet r)
    exact ⟨htended.recent.nodup, htended⟩
  · exact AgentSystem.world_invariant (I := fun w => w.registry.Exact)
      (fun c h => (RegistryInit.tended h).2)
      (fun i e w r w' h hroom hw => Effect.Performs.exact h hroom hw)
      (fun w w' (h : w' = w) hw => h ▸ hw) r

/-! ### Two insertions -/

/-- A new registry with this bound. -/
def World.new (cacheMaxWeight : Nat) : World := ⟨⟨∅, [], ∅, [], 0, cacheMaxWeight⟩, [], []⟩

def newRegistry (cacheMaxWeight : Nat) : (registrySystem fuel ι).Config :=
  ⟨.new cacheMaxWeight, fun _ => .idle (), fun _ => []⟩

omit [DecidableEq ι] in
theorem newRegistry_init {cacheMaxWeight : Nat} (h : cacheMaxWeight ≠ 0) :
    RegistryInit fuel ι (newRegistry cacheMaxWeight) where
  registry := ⟨some cacheMaxWeight, if_neg h⟩
  uses := rfl
  evicted := rfl
  idle _ := rfl
  logs _ := rfl

/-- The world after `insert_engine`. -/
def World.inserting (w : World) (i : Insertion) : World := w.run (w.registry.insertEngine i)

theorem reach_insertEngine {j : ι}
    (i : Insertion) (r : Reach (RegistryInit fuel ι) (Guarded (registrySystem fuel ι).Step
      (AgentSystem.EffectsMeet P)) c) (hidle : c.agent j = .idle ())
    (hP : P c.world (.insertEngine i)) :
    Reach (RegistryInit fuel ι) (Guarded (registrySystem fuel ι).Step (AgentSystem.EffectsMeet P))
      (c.called j (RegistryCall.insertEngine i)
      (Reply.engine ((c.world.registry.insertEngine i).answer.mapError .s4)) ()
        (c.world.inserting i)) := by
  exact AgentSystem.Reach.call_meets j _ r hidle (.call ⟨⟨rfl, rfl⟩, hP⟩ .ret)

end Runs

/-- A digest for the examples. -/
abbrev plainDigest : Sha256 := ⟨fun bytes => bytes⟩

/-- An engine of this weight, for a component without capabilities. -/
def insertionOf (componentHash : String) (weight : Nat) : Insertion :=
  ⟨componentHash, FilterEngine.withFuel [] 1, ⟨false⟩, [], weight⟩

theorem reach_insertions (cacheMaxWeight : Nat) (i i' : Insertion)
    (hmax : cacheMaxWeight ≠ 0) (hP : P (.new cacheMaxWeight) (.insertEngine i))
    (hP' : P ((World.new cacheMaxWeight).inserting i) (.insertEngine i')) : letI := plainDigest
    ∃ c, Reach (RegistryInit 1 Unit) (Guarded (registrySystem 1 Unit).Step
      (AgentSystem.EffectsMeet P)) c ∧
        c.world = ((World.new cacheMaxWeight).inserting i).inserting i' := by
  let _ := plainDigest
  have hnew : RegistryInit 1 Unit (newRegistry cacheMaxWeight) := newRegistry_init hmax
  have first := reach_insertEngine (j := ()) i (.init hnew) rfl hP
  have second := reach_insertEngine i' first AgentSystem.Config.called_agent hP'
  exact ⟨_, second, rfl⟩

/-- The second insertion evicts the first component. -/
theorem second_insertion_evicts : letI := plainDigest
    ∃ c, Reach (RegistryInit 1 Unit) (registrySystem 1 Unit).Step c ∧
      c.world.registry.cacheOrder = ["b"] ∧ c.world.registry.totalWeight = 1 ∧
      c.world.registry.cacheWeight = c.world.registry.totalWeight ∧
      ∃ e ∈ c.world.evicted, e.victim = "a" ∧ e.LeastRecent := by
  let _ := plainDigest
  obtain ⟨c, r, hc⟩ := reach_insertions (P := fun w e => e.HasRoom w) 1
    (insertionOf "a" 1) (insertionOf "b" 1) (by decide) (fun _ => by decide +kernel)
    (fun _ => by decide +kernel)
  have horder : c.world.registry.cacheOrder = ["b"] := by
    rw [hc]
    decide +kernel
  have htotal : c.world.registry.totalWeight = 1 := by
    rw [hc]
    decide +kernel
  have hevicted : c.world.evicted.map (·.victim) = ["a"] := by
    rw [hc]
    decide +kernel
  obtain ⟨e, he, hvictim⟩ := mem_map.mp (hevicted ▸ mem_singleton_self "a")
  have hleast := (compile_cache_integrity.1 c r.of_guarded).2.evictions e he
  exact ⟨c, r.of_guarded, horder, htotal, compile_cache_integrity.2 c r, e, he, hvictim, hleast⟩

/-- With the largest bound, the second insertion leaves the weight at the maximum. -/
theorem insertions_saturate : letI := plainDigest
    ∃ c, Reach (RegistryInit 1 Unit) (registrySystem 1 Unit).Step c ∧
      c.world.registry.cacheMaxWeight = maxWord usizeBits ∧
      c.world.registry.cacheWeight = maxWord usizeBits ∧
      c.world.registry.totalWeight = maxWord usizeBits + 1 := by
  let _ := plainDigest
  obtain ⟨c, r, hc⟩ := reach_insertions (P := fun _ _ => True) (maxWord usizeBits)
    (insertionOf "a" (maxWord usizeBits)) (insertionOf "b" 1) (by decide) trivial trivial
  refine ⟨c, r.of_guarded, ?_⟩
  rw [hc]
  decide +kernel

end S4.Plugins
