import S4.Managed.Rows

/-!
# Managed — Cleanup

No live copy is up for deletion (`NoLiveCleanup`): no open `DeleteGeneration` row targets a backend
that the live authority of the same key and generation names.  The repository does not keep this by
itself.  A primary/replica swap parks the cleanup of the old primary when its first leg finishes,
and activates it when the second leg has made that backend the replica (`swap_cleans_live_replica`).
`KeepsCleanupsOff` says what a step must avoid: a cleanup that is open, or about to be activated,
for a backend that the step makes the authority name.  Every run whose steps avoid it has the
property in every state (`noLiveCleanup_of_guarded`).
-/

namespace S4.Managed

open Lib

variable {l : LogicalObjectKey} {g : Uuid} {b : String} {a moved previous : ObjectAuthority}
  {epoch n : Nat} {repair q : RepairRecord} {marked : MemoryState} {now : Int} {s : MemoryState}

/-- The live authority of `l` is of generation `g` and names `b`. -/
def NamedLive (s : MemoryState) (l : LogicalObjectKey) (g : Uuid) (b : String) : Prop :=
  ∃ a, s.authorities.get? l = some a ∧ a.tombstone = false ∧ a.generation = g ∧ a.Names b

/-- **No live copy is up for deletion.** -/
def NoLiveCleanup (s : MemoryState) : Prop :=
  ∀ l g b, NamedLive s l g b → ¬ OpenCleanup s.repairs l g b

/-! ### The condition on a step -/

/-- A live authority may be installed: no cleanup of its generation is open on its backends, and the
authority it replaces does not share a generation and a backend with it. -/
def Installable (s : MemoryState) (a : ObjectAuthority) : Prop :=
  a.tombstone = false → ∀ b, a.Names b →
    ¬ OpenCleanup s.repairs a.logical a.generation b ∧ ¬ NamedLive s a.logical a.generation b

/-- A finished repair may be applied: no cleanup of its generation is open on its target, and if the
repair cuts its placement over, none that is parked for that placement targets a backend that the
authority will name. -/
structure SafeLeg (s : MemoryState) (previous : ObjectAuthority) (repair : RepairRecord) :
    Prop where
  target : ¬ OpenCleanup s.repairs repair.logical repair.generation repair.targetBackendId
  parked : repair.kind = .placement →
    previous.placementVersion = repair.placementVersion ∨ previous.otherLegDone repair →
    ∀ k row, s.repairs.get? k = some row → waitsFor repair row = true →
      row.1.targetBackendId ≠ repair.targetBackendId ∧
        previous.keptBackend repair ≠ some row.1.targetBackendId

/-- What a step has to avoid to keep cleanups off the live copies. -/
def KeepsCleanupsOff (s : MemoryState) : Event → Prop
  | .call _ (.publish a cas) => s.publishable a.logical cas = true → Installable s a
  | .call _ (.commitLogicalPut id a allocated) =>
    s.puttable id a allocated = true → Installable s a
  | .call _ (.enqueue repair) => repair.kind = .deleteGeneration →
      ¬ NamedLive s repair.logical repair.generation repair.targetBackendId
  | .call _ (.proveLogicalAbort _ _ (some physical)) => ∀ b, physical.authority.Names b →
      ¬ NamedLive s physical.authority.logical physical.authority.generation b
  | .call env (.completeRepair repair) => s.holdsRepair env.now repair = true →
      ∀ previous, s.repairable repair = some previous → SafeLeg s previous repair
  | _ => True

/-! ### Steps that keep it -/

section Steps

variable {s s' : MemoryState}

/-- The step opens no cleanup and changes nothing that an authority names. -/
theorem NoLiveCleanup.follow (h : NoLiveCleanup s) (hr : RowsFollow s.repairs s'.repairs)
    (ha : ∀ l g b, NamedLive s' l g b → NamedLive s l g b) : NoLiveCleanup s' :=
  fun l g b hn ho => h l g b (ha l g b hn) (hr.openCleanup ho)

theorem namedLive_congr (h : s'.authorities = s.authorities) :
    NamedLive s' l g b ↔ NamedLive s l g b := by
  unfold NamedLive
  rw [h]

theorem NoLiveCleanup.of_objects (h : NoLiveCleanup s) (ho : SameObjects s s') :
    NoLiveCleanup s' := by
  refine h.follow ?_ fun l g b => (namedLive_congr ho.authorities).mp
  rw [ho.repairs]
  exact .refl _

/-- Every open cleanup afterwards was open before or is for a backend that no live authority of its
key and generation names. -/
theorem NoLiveCleanup.of_opened (h : NoLiveCleanup s) (ha : s'.authorities = s.authorities)
    (ho : ∀ l g b, OpenCleanup s'.repairs l g b →
      OpenCleanup s.repairs l g b ∨ ¬ NamedLive s l g b) : NoLiveCleanup s' := by
  intro l g b hn hopen
  have hn := (namedLive_congr ha).mp hn
  rcases ho l g b hopen with hopen | hnot
  · exact h l g b hn hopen
  · exact hnot hn

end Steps

theorem mem_cleanupRepairs [Sha256] {env : CallEnv} (h : q ∈ cleanupRepairs env n a) :
    q.kind = .deleteGeneration ∧ q.logical = a.logical ∧ q.generation = a.generation ∧
      a.Names q.targetBackendId := by
  unfold cleanupRepairs at h
  rcases List.mem_cons.mp h with rfl | h
  · exact ⟨rfl, rfl, rfl, .inl rfl⟩
  split at h
  · rename_i replica hr
    rw [List.mem_singleton] at h
    subst h
    exact ⟨rfl, rfl, rfl, .inr hr⟩
  · cases h

/-- A cleanup open after `insertLedgeredRepairs` was open before or is one of the list's. -/
theorem openCleanup_ledgered {repairs : List RepairRecord}
    (h : OpenCleanup (insertLedgeredRepairs now epoch s repairs).repairs l g b) :
    OpenCleanup s.repairs l g b ∨
      ∃ q ∈ repairs, q.logical = l ∧ q.generation = g ∧ q.targetBackendId = b := by
  obtain ⟨k, r, hk, h₁, h₂, h₃, h₄, h₅⟩ := h
  rcases insertLedgeredRepairs_row hk with hr | ⟨q, hq, hs, -⟩
  · exact .inl ⟨k, r, hr, h₁, h₂, h₃, h₄, h₅⟩
  · exact .inr ⟨q, hq, hs.logical ▸ h₂, hs.generation ▸ h₃, hs.target ▸ h₄⟩

theorem openCleanup_published [Sha256] {env : CallEnv}
    (h : OpenCleanup (insertRepairs env.now epoch s (publicationRepairs env n a)).repairs l g b) :
    OpenCleanup s.repairs l g b := by
  obtain ⟨k, r, hk, h₁, h₂⟩ := h
  rcases insertRepairs_row hk with hr | ⟨q, hq, hs, -⟩
  · exact ⟨k, r, hr, h₁, h₂⟩
  unfold publicationRepairs at hq
  split at hq
  · rw [List.mem_singleton] at hq
    subst hq
    rw [hs.kind] at h₁
    cases h₁
  · cases hq

section Runs

variable [Sha256] {env : CallEnv} {s s' : MemoryState}

/-- A cleanup open after an installation was open before, or is one of the replaced authority's. -/
theorem Installs.openCleanup (h : Installs env epoch a s s') (hkey : AuthoritiesKeyed s)
    (ho : OpenCleanup s'.repairs l g b) :
    OpenCleanup s.repairs l g b ∨ (l = a.logical ∧ NamedLive s l g b) := by
  have published : OpenCleanup (insertRepairs env.now epoch (s.setAuthority a)
      (publicationRepairs env 0 a)).repairs l g b → OpenCleanup s.repairs l g b := fun h =>
    openCleanup_published (s := s.setAuthority a) h
  rw [h.repairs, MemoryState.replaceAuthority] at ho
  unfold MemoryState.cleanupReplaced at ho
  split at ho
  · exact .inl (published ho)
  rename_i e he
  split at ho
  · exact .inl (published ho)
  rename_i ht
  rcases openCleanup_ledgered ho with ho | ⟨q, hq, hl, hg, hb⟩
  · exact .inl (published ho)
  · obtain ⟨-, hl', hg', hn⟩ := mem_cleanupRepairs hq
    have hl : l = a.logical := (hl.symm.trans hl').trans (hkey _ _ he)
    exact .inr ⟨hl, e, hl ▸ he, by simpa using ht, hg'.symm.trans hg, hb ▸ hn⟩

/-- Installing an authority that is a tombstone, or `Installable`, keeps cleanups off. -/
theorem NoLiveCleanup.installs {cas : Option Nat} (h : NoLiveCleanup s) (hkey : AuthoritiesKeyed s)
    (hi : Installs env epoch (a.stamp now cas (s.authorities.get? a.logical)) s s')
    (ha : Installable s a) : NoLiveCleanup s' := by
  intro l g b hn ho
  obtain ⟨x, hx, htomb, hg, hname⟩ := hn
  rw [hi.authorities] at hx
  obtain ⟨rfl, rfl⟩ | ⟨e, hx⟩ := KeyMap.get?_insert_cases hx
  · -- The new authority itself: its generation is new on this backend.
    obtain ⟨hopen, hlive⟩ := ha htomb b hname
    subst hg
    rcases hi.openCleanup hkey ho with ho | ⟨-, hold⟩
    · exact hopen ho
    · exact hlive hold
  · rcases hi.openCleanup hkey ho with ho | ⟨hl, -⟩
    · exact h l g b ⟨x, hx, htomb, hg, hname⟩ ho
    · exact e hl

/-- Copies that a placement leg leaves are not named by the authority it produces. -/
theorem mem_placementCleanupRepairs {authority : ObjectAuthority}
    (h : q ∈ placementCleanupRepairs env previous authority) :
    q.logical = authority.logical ∧ q.generation = authority.generation ∧
      ¬ authority.Names q.targetBackendId := by
  obtain ⟨⟨backend, i⟩, hmem, rfl⟩ := List.mem_map.mp h
  refine ⟨rfl, rfl, ?_⟩
  have hm := List.fst_mem_of_mem_zipIdx hmem
  rw [staleLocations, List.mem_dedup, List.mem_filter] at hm
  simp only [Bool.and_eq_true, bne_iff_ne, ne_eq] at hm
  rintro (hp | hr)
  · exact hm.2.1 hp.symm
  · exact hm.2.2 hr

/-- A row after the leg's cleanups are parked was there before, or is parked for a backend that the
authority no longer names. -/
theorem Completes.parked_row {k : Uuid} {r : RepairRecord × RepairStatus}
    (h : (marked.parkCleanups repair
      (placementCleanupRepairs env previous (moved.bump env.now))).repairs.get? k = some r) :
    marked.repairs.get? k = some r ∨
      (r.2 = .waitingCutover ∧ ¬ moved.Names r.1.targetBackendId) := by
  rcases parkCleanups_row h with h | ⟨q, hq, hs, hw⟩
  · exact .inl h
  · exact .inr ⟨hw, hs.target ▸ (mem_placementCleanupRepairs hq).2.2⟩

/-- **A cleanup that is open after a safe leg was open before, or is not for a live copy.**  It may
have been parked for this placement and activated now; `SafeLeg` excludes both backends that the
authority names afterwards. -/
theorem Completes.openCleanup (hc : Completes env repair previous moved marked s s')
    (hsafe : SafeLeg s previous repair)
    (ho : OpenCleanup s'.repairs l g b) : OpenCleanup s.repairs l g b ∨
      (l = repair.logical ∧ g = repair.generation ∧ ¬ moved.Names b) := by
  have hm := applyRepairToAuthority_moves hc.applied
  obtain ⟨k, r, hk, h₁, h₂, h₃, h₄, h₅⟩ := ho
  have parked_not_open : r.2 ≠ .waitingCutover := by
    intro hw
    rw [hw] at h₅
    rcases h₅ with h₅ | h₅ <;> cases h₅
  by_cases hkind : repair.kind = .placement
  · by_cases hv : moved.placementVersion = repair.placementVersion
    · rw [hc.cutsOver hkind hv] at hk
      obtain ⟨q, hq, heq, hst | ⟨hw, -⟩⟩ := activateCleanups_row hk
      · rcases Completes.parked_row hq with hq | ⟨hw, -⟩
        · exact .inl (hc.marks.openCleanup ⟨k, q, hq, heq ▸ h₁, heq ▸ h₂, heq ▸ h₃, heq ▸ h₄,
            hst ▸ h₅⟩)
        · exact absurd (hst.trans hw) parked_not_open
      · have hw' := hw
        simp only [waitsFor, Bool.and_eq_true, beq_iff_eq] at hw'
        obtain ⟨⟨⟨hwait, hl⟩, hg⟩, -⟩ := hw'
        refine .inr ⟨by rw [← h₂, heq, hl], by rw [← h₃, heq, hg], fun hname => ?_⟩
        rw [heq] at h₄
        subst h₄
        rcases Completes.parked_row hq with hq | ⟨-, hnot⟩
        · obtain ⟨q₀, hq₀, -, -, hsame⟩ := hc.marks k q hq
          have := hsame hwait
          subst this
          obtain ⟨ht, hkept⟩ := hsafe.parked hkind (hm.cutsOver hkind hv) k q₀ hq₀ hw
          rcases hm.names _ hname with hb | hb
          · exact ht hb
          · exact hkept hb
        · exact hnot hname
    · rw [hc.parks hkind hv] at hk
      rcases Completes.parked_row hk with hk | ⟨hw, -⟩
      · exact .inl (hc.marks.openCleanup ⟨k, r, hk, h₁, h₂, h₃, h₄, h₅⟩)
      · exact absurd hw parked_not_open
  · rw [hc.copies hkind] at hk
    exact .inl (hc.marks.openCleanup ⟨k, r, hk, h₁, h₂, h₃, h₄, h₅⟩)

/-- A finished repair that is a `SafeLeg` keeps cleanups off. -/
theorem NoLiveCleanup.completes (h : NoLiveCleanup s)
    (hc : Completes env repair previous moved marked s s') (hsafe : SafeLeg s previous repair) :
    NoLiveCleanup s' := by
  obtain ⟨hp, htomb, hgen, -⟩ := repairable_some hc.found
  have hm := applyRepairToAuthority_moves hc.applied
  intro l g b hn ho
  obtain ⟨x, hx, hxt, hxg, hname⟩ := hn
  rw [hc.authorities] at hx
  obtain ⟨rfl, rfl⟩ | ⟨e, hx⟩ := KeyMap.get?_insert_cases hx
  · have hname : moved.Names b := hname
    rcases hc.openCleanup hsafe ho with ho | ⟨-, -, hnot⟩
    · have hg : g = repair.generation := hxg.symm.trans (hm.generation.trans hgen)
      rcases hm.names b hname with hb | hb
      · exact hsafe.target (hb ▸ hg ▸ ho)
      · exact h _ g b ⟨previous, hp, htomb, hgen.trans hg.symm,
          ObjectAuthority.names_of_kept hb⟩ ho
    · exact hnot hname
  · rcases hc.openCleanup hsafe ho with ho | ⟨hl, -, -⟩
    · exact h l g b ⟨x, hx, hxt, hxg, hname⟩ ho
    · exact e hl

omit [Sha256] in
theorem Drops.namedLive {tenant : String} (h : Drops env tenant s s')
    (hn : NamedLive s' l g b) : NamedLive s l g b := by
  obtain ⟨a, ha, hrest⟩ := hn
  rw [h.authorities, MemoryState.dropNamespace, KeyMap.get?_retain,
    Option.filter_eq_some_iff] at ha
  exact ⟨a, ha.1, hrest⟩

/-- **One step.**  Each call, in a state that keeps its authorities under their keys, keeps cleanups
off the live copies if it meets the condition. -/
theorem NoLiveCleanup.next {c : Call} (h : NoLiveCleanup s) (hkey : AuthoritiesKeyed s)
    (hc : KeepsCleanupsOff s (.call env c)) : NoLiveCleanup (c.next env s) := by
  by_cases ht : c.touchesObjects = false
  · exact h.of_objects (Call.next_objects env s ht)
  by_cases hi : c.installing = true
  · obtain ho | ⟨a, cas, epoch, hcand, hen, hin⟩ := Call.next_installs env s hi
    · exact h.of_objects ho
    · refine h.installs hkey hin ?_
      cases c with
      | publish | commitLogicalPut =>
        cases hcand
        exact hc hen
      | tombstone =>
        cases hcand
        exact fun hlive => by cases hlive
      | commitLogicalDelete =>
        simp only [Call.candidate, Option.map_eq_some_iff] at hcand
        obtain ⟨operation, -, rfl⟩ := hcand
        exact fun hlive => by cases hlive
      | _ => cases hcand
  · have hpurge := c.next_purge env s
    cases c with
    | proveLogicalAbort id error physical =>
      obtain ⟨e, -⟩ | ⟨operation, usage, proven, -, -, -, ha, hrows⟩ :=
        proveLogicalAbort_cases env s id error physical
      · exact h.of_objects (.of_eq e)
      refine h.of_opened ha.authorities fun l g b ho => ?_
      rcases hrows with e | ⟨allocation, epoch, rfl, e⟩
      · exact .inl (e ▸ ho)
      simp only [Call.next, runCall, Outcome.unit, e] at ho
      rcases openCleanup_ledgered ho with ho | ⟨q, hq, hl, hg, hb⟩
      · exact .inl ho
      · obtain ⟨-, hl', hg', hn⟩ := mem_cleanupRepairs hq
        refine .inr ?_
        rw [← hl, ← hg, ← hb, hl', hg']
        exact hc _ hn
    | advancePlacementVersion logical cas placement =>
      obtain e | ⟨a, ha, e⟩ := advancePlacementVersion_cases env s logical cas placement
      · exact h.of_objects (.of_eq e)
      refine h.follow (by simp only [Call.next, runCall, Outcome.unit, e]; exact .refl _)
        fun l g b hn => ?_
      obtain ⟨x, hx, hrest⟩ := hn
      simp only [Call.next, runCall, Outcome.unit, e] at hx
      obtain ⟨rfl, rfl⟩ | ⟨-, hx⟩ := KeyMap.get?_insert_cases hx
      · exact ⟨a, ha, hrest⟩
      · exact ⟨x, hx, hrest⟩
    | enqueue repair =>
      obtain e | ⟨-, -, epoch, e⟩ := enqueue_cases env s repair
      · exact h.of_objects (.of_eq e)
      simp only [Call.next, runCall, Outcome.unit, e]
      refine h.of_opened (insertMemoryRepair_only env.now s _).authorities ?_
      rintro l g b ⟨k, r, hk, h₁, h₂, h₃, h₄, h₅⟩
      rcases insertMemoryRepair_row hk with hk | ⟨hs, -⟩
      · exact .inl ⟨k, r, hk, h₁, h₂, h₃, h₄, h₅⟩
      · refine .inr ?_
        rw [← h₂, ← h₃, ← h₄, hs.logical, hs.generation, hs.target]
        exact hc (hs.kind.symm.trans h₁)
    | claimRepairs owner deadline limit =>
      exact h.follow (claimRepairs_follow env s owner deadline limit) fun _ _ _ hn => hn
    | renewRepair token deadline =>
      refine h.follow (renewRepair_follow env s token deadline) fun l g b => (namedLive_congr ?_).mp
      simp only [Call.next, runCall, Managed.renewRepair]
      split <;> rfl
    | failRepair token =>
      refine h.follow (failRepair_follow env s token) fun l g b => (namedLive_congr ?_).mp
      simp only [Call.next, runCall, Managed.failRepair]
      split <;> rfl
    | completeRepair repair =>
      obtain ⟨e, hr⟩ | ⟨previous, moved, marked, hcm⟩ := completeRepair_cases env s repair
      · exact h.follow hr fun l g b => (namedLive_congr e).mp
      · exact h.completes hcm (hc hcm.held previous hcm.found)
    | purgeNamespace | namespacePurgeStatus =>
      obtain ⟨ho, -⟩ | ⟨tenant, hd⟩ := hpurge rfl
      · exact h.of_objects ho
      · exact h.follow hd.follow fun _ _ _ => hd.namedLive
    | publish | tombstone | commitLogicalPut | commitLogicalDelete => exact absurd rfl hi
    | _ => exact absurd rfl ht

/-- **Cleanups stay off the live copies in every run whose steps avoid the conflict.** -/
theorem noLiveCleanup_of_guarded (r : Reach Init (Guarded Step KeepsCleanupsOff) s) :
    NoLiveCleanup s := by
  refine r.invariant (I := NoLiveCleanup) ?_ ?_
  · rintro s rfl l g b ⟨a, ha, -⟩
    cases ha
  · intro s e s' hr h hs
    obtain ⟨hs, hc⟩ := hs
    cases hs with
    | call => exact h.next (authoritiesKeyed_of_reach hr.of_guarded) hc
    | rehash hsame =>
      rintro l g b ⟨a, ha, hrest⟩ ⟨k, row, hk, hopen⟩
      refine h l g b ⟨a, (hsame.authorities.get?_eq l).trans ha, hrest⟩
        ⟨k, row, (hsame.repairs.get?_eq k).trans hk, hopen⟩

end Runs

/-! ### A migration -/

/-- What the runs below read off an authority, and off a row. -/
def ObjectAuthority.names (a : ObjectAuthority) : Bool × Uuid × String × Option String :=
  (a.tombstone, a.generation, a.primaryBackendId, a.replicaBackendId)

def cleans (row : RepairRecord × RepairStatus) :
    RepairKind × LogicalObjectKey × Uuid × String × RepairStatus :=
  (row.1.kind, row.1.logical, row.1.generation, row.1.targetBackendId, row.2)

theorem namedLive_of_names {primary : String} {replica : Option String}
    (h : (s.authorities.get? l).map (·.names) = some (false, g, primary, replica))
    (hb : primary = b ∨ replica = some b) : NamedLive s l g b := by
  obtain ⟨a, ha, hnames⟩ := Option.map_eq_some_iff.mp h
  simp only [ObjectAuthority.names, Prod.mk.injEq] at hnames
  obtain ⟨hlive, hgen, rfl, rfl⟩ := hnames
  exact ⟨a, ha, hlive, hgen, hb⟩

theorem openCleanup_of_cleans {k : Uuid}
    (h : (s.repairs.get? k).map cleans = some (.deleteGeneration, l, g, b, .pending)) :
    OpenCleanup s.repairs l g b := by
  obtain ⟨row, hrow, hcleans⟩ := Option.map_eq_some_iff.mp h
  simp only [cleans, Prod.mk.injEq] at hcleans
  obtain ⟨hkind, hlogical, hgeneration, htarget, hstatus⟩ := hcleans
  exact ⟨k, row, hrow, hkind, hlogical, hgeneration, htarget, .inl hstatus⟩

/-- A migration of both copies, leg by leg. -/
def migrated : Placement := ⟨2, "c", some "d"⟩

def firstLeg : RepairRecord :=
  letI := sampleSha256
  .placement 1 ⟨20⟩ { sampleAuthority with casVersion := 1 } (some "a") "c" .primary migrated

def secondLeg : RepairRecord :=
  letI := sampleSha256
  .placement 4 ⟨60⟩ { sampleAuthority with primaryBackendId := "c", casVersion := 2 } (some "b") "d"
    .replica migrated

/-- Publish; enqueue, claim and complete the first leg, which parks the cleanup of `a`. -/
def migrationScript : Script :=
  [(0, 10, .publish sampleAuthority none),
   (1, 30, .enqueue firstLeg),
   (2, 40, .claimRepairs "w" 100 8),
   (3, 50, .completeRepair ((firstLeg.underEpoch 1).lease ⟨40⟩ "w" 100 2))]

/-- The same for the second leg, which cuts over and activates the cleanup. -/
def cutoverScript : Script :=
  migrationScript ++ [(4, 70, .enqueue secondLeg), (5, 80, .claimRepairs "w" 100 8),
    (6, 90, .completeRepair ((secondLeg.underEpoch 1).lease ⟨80⟩ "w" 100 5))]

/-- The calls of the migration meet the condition: the key is new, and no cleanup has the target of
the leg or the backend that it keeps. -/
def keepsOff (s : MemoryState) : Int × Nat × Call → Bool
  | (_, _, .publish a _) => s.repairs.toList.isEmpty && (s.authorities.get? a.logical).isNone
  | (_, _, .enqueue repair) => repair.kind != .deleteGeneration
  | (_, _, .completeRepair repair) => (s.repairable repair).all fun previous =>
      s.repairs.toList.all fun e => e.2.1.kind != .deleteGeneration && e.2.2 != .waitingCutover ||
        e.2.1.targetBackendId != repair.targetBackendId &&
          previous.keptBackend repair != some e.2.1.targetBackendId
  | (_, _, .claimRepairs _ _ _) => true
  | _ => false

theorem keepsOff_spec {now : Int} {base : Nat} {c : Call}
    (h : keepsOff s (now, base, c) = true) : KeepsCleanupsOff s (.call (.counting now base) c) := by
  cases c with
  | publish a =>
    simp only [keepsOff, Bool.and_eq_true, List.isEmpty_iff, Option.isNone_iff_eq_none] at h
    refine fun _ _ b _ => ⟨?_, ?_⟩
    · rintro ⟨k, row, hrow, -⟩
      have hmem := KeyMap.mem_toList_iff.mpr hrow
      rw [h.1] at hmem
      cases hmem
    · rintro ⟨old, hold, -⟩
      cases h.2.symm.trans hold
  | enqueue repair => exact fun hkind => by simp [keepsOff, hkind] at h
  | completeRepair repair =>
    intro _ previous hprevious
    simp only [keepsOff, hprevious, Option.all_some, List.all_eq_true] at h
    refine ⟨?_, fun _ _ k row hrow hwaits => ?_⟩
    · rintro ⟨k, row, hrow, hkind, -, -, htarget, -⟩
      simpa [hkind, htarget] using h (k, row) (KeyMap.mem_toList_iff.mpr hrow)
    · simp only [waitsFor, Bool.and_eq_true, beq_iff_eq] at hwaits
      simpa [hwaits.1.1.1] using h (k, row) (KeyMap.mem_toList_iff.mpr hrow)
  | claimRepairs => trivial
  | _ => cases h

/-- The migration keeps its cleanups off the copies that it has made. -/
theorem noLiveCleanup_migrated :
    ∃ (_ : Sha256) (s : MemoryState), NamedLive s sampleKey ⟨1⟩ "c" ∧
      OpenCleanup s.repairs sampleKey ⟨1⟩ "a" ∧ NoLiveCleanup s := by
  let _ := sampleSha256
  have r : Reach Init (Guarded Step KeepsCleanupsOff) (runSample cutoverScript) := by
    have hplays : Lib.plays Script.next (fun s x => Script.fresh s x && keepsOff s x) .new
        cutoverScript = true := by decide +kernel
    refine Reach.script (.init rfl) hplays fun s x _ hx => ?_
    obtain ⟨hfresh, hkeeps⟩ := Bool.and_eq_true_iff.mp hx
    exact ⟨_, Script.step x hfresh, keepsOff_spec hkeeps⟩
  have hauthority : ((runSample cutoverScript).authorities.get? sampleKey).map (·.names) =
      some (false, ⟨1⟩, "c", some "d") := by decide +kernel
  have hcleanup : ((runSample cutoverScript).repairs.get? ⟨50⟩).map cleans =
      some (.deleteGeneration, sampleKey, ⟨1⟩, "a", .pending) := by decide +kernel
  exact ⟨sampleSha256, _, namedLive_of_names hauthority (.inl rfl), openCleanup_of_cleans hcleanup,
    noLiveCleanup_of_guarded r⟩

/-! ### A swap -/

/-- The placement that swaps the roles of `a` and `b`. -/
def swapped : Placement := ⟨2, "b", some "a"⟩

/-- The two legs of the swap, made for the authority versions they find. -/
def primaryLeg : RepairRecord :=
  letI := sampleSha256
  .placement 1 ⟨20⟩ { sampleAuthority with casVersion := 1 } (some "a") "b" .primary swapped

def replicaLeg : RepairRecord :=
  letI := sampleSha256
  .placement 4 ⟨60⟩ { sampleAuthority with casVersion := 2 } (some "b") "a" .replica swapped

/-- Publish; enqueue, claim and complete the primary leg, which parks the cleanup of `a`; the same
for the replica leg, which makes `a` the replica and activates the cleanup. -/
def swapScript : Script :=
  [(0, 10, .publish sampleAuthority none),
   (1, 30, .enqueue primaryLeg),
   (2, 40, .claimRepairs "w" 100 8),
   (3, 50, .completeRepair ((primaryLeg.underEpoch 1).lease ⟨40⟩ "w" 100 2)),
   (4, 70, .enqueue replicaLeg),
   (5, 80, .claimRepairs "w" 100 8),
   (6, 90, .completeRepair ((replicaLeg.underEpoch 1).lease ⟨80⟩ "w" 100 5))]

/-- **A swap puts a live replica up for deletion.** -/
theorem swap_cleans_live_replica :
    ∃ (_ : Sha256) (s : MemoryState), Reach Init Step s ∧ ¬ NoLiveCleanup s := by
  refine ⟨sampleSha256, runSample swapScript, reach_runSample (by decide +kernel), fun h => ?_⟩
  have hauthority : ((runSample swapScript).authorities.get? sampleKey).map (·.names) =
      some (false, ⟨1⟩, "b", some "a") := by decide +kernel
  have hcleanup : ((runSample swapScript).repairs.get? ⟨50⟩).map cleans =
      some (.deleteGeneration, sampleKey, ⟨1⟩, "a", .pending) := by decide +kernel
  exact h _ _ _ (namedLive_of_names hauthority (.inr rfl)) (openCleanup_of_cleans hcleanup)

end S4.Managed
