import S4.Managed.Cleanup

/-!
# Managed — Replacement

Does an overwrite or a delete leave storage behind?  The call that replaces a live authority
enqueues a cleanup for every backend the authority named and the ledger still lists
(`OrphansNothing`).  The insertion looks for a row of the same task first, and leaves such a row as
it is unless it is `DONE`.  So a cleanup that an unfinished migration has parked stays parked, for a
cut-over that will not come, and one that has run out of attempts stays dead.

`Cleanable` says that the generation has no such row.  `replaced_orphansNothing_iff`: in every
reachable state, a replacement orphans nothing exactly then.  `overwrite_strands_parked_cleanup` is
an overwrite in the middle of a migration.
-/

namespace S4.Managed

open Lib List

variable {k : Uuid} {r : RepairRecord × RepairStatus} {q : RepairRecord} {n : Nat} {b : String}

/-- A row for the cleanup of generation `g`, on backend `b`. -/
def CleanupRow (rows : Rows) (g : Uuid) (b : String) (k : Uuid)
    (row : RepairRecord × RepairStatus) : Prop :=
  rows.get? k = some row ∧ row.1.kind = .deleteGeneration ∧ row.1.generation = g ∧
    row.1.targetBackendId = b

section Definitions

variable [Sha256]

/-- The ledger holds a physical version of the authority's generation on `b`. -/
def MemoryState.holdsCopy (s : MemoryState) (a : ObjectAuthority) (b : String) : Bool :=
  s.physicalVersions.any fun target =>
    target.tenantId == a.logical.tenantId && target.backendId == b &&
      target.physicalKey == generationPhysicalKey a.logical a.generation

/-- **No storage of `old` is orphaned**: none of its cleanups waits for a cut-over, and each of its
copies has a cleanup that a worker holds or may claim. -/
structure OrphansNothing (s : MemoryState) (old : ObjectAuthority) : Prop where
  parked : ∀ b k row, CleanupRow s.repairs old.generation b k row → row.2 ≠ .waitingCutover
  queued : ∀ b, old.Names b → s.holdsCopy old b = true →
    ∃ k row, CleanupRow s.repairs old.generation b k row ∧ row.2.IsOpen

/-- The cleanups of `old` that are already there can still run: none is parked, and none of a copy
that the ledger holds is dead. -/
structure Cleanable (s : MemoryState) (old : ObjectAuthority) : Prop where
  parked : ∀ b k row, CleanupRow s.repairs old.generation b k row → row.2 ≠ .waitingCutover
  dead : ∀ b k row, old.Names b → s.holdsCopy old b = true →
    CleanupRow s.repairs old.generation b k row → row.2 ≠ .dead

/-- The call installs another authority in the place of the live authority `old`. -/
structure Call.Replaces (env : CallEnv) (s : MemoryState) (c : Call) (old : ObjectAuthority) :
    Prop where
  installing : c.installing = true
  candidate : ∃ a, c.candidate env s = some a ∧ s.authorities.get? a.logical = some old
  live : old.tombstone = false
  replaced : (c.next env s).authorities ≠ s.authorities

end Definitions

/-! ### Inserting a list of repairs -/

section Insert

variable {now : Int} {epoch : Nat} {s : MemoryState} {repairs : List RepairRecord}
  {o : Option (RepairRecord × RepairStatus)}

/-- What every insertion of a list keeps is kept by all of them. -/
theorem foldl_keeps {f : MemoryState → RepairRecord → MemoryState}
    (hf : ∀ s q, q.repairId ≠ k → s.repairs.get? k = o → (f s q).repairs.get? k = o)
    (hk : s.repairs.get? k = o) (hne : ∀ q ∈ repairs, q.repairId ≠ k) :
    (repairs.foldl f s).repairs.get? k = o := by
  induction repairs generalizing s with
  | nil => exact hk
  | cons q l ih =>
    exact ih (hf s q (hne q mem_cons_self) hk) fun q' hq' => hne q' (mem_cons_of_mem _ hq')

theorem insertRepairs_keeps (hk : s.repairs.get? k = o) (hne : ∀ q ∈ repairs, q.repairId ≠ k)
    (hd : ∀ r, o = some r → r.2 ≠ .done) : (insertRepairs now epoch s repairs).repairs.get? k = o :=
  foldl_keeps (fun _ _ hq hk => insertMemoryRepair_keeps hk hq hd) hk hne

theorem insertLedgeredRepair_keeps {repair : RepairRecord} (hk : s.repairs.get? k = o)
    (hne : repair.repairId ≠ k) (hd : ∀ r, o = some r → r.2 ≠ .done) :
    (insertLedgeredRepair now epoch s repair).repairs.get? k = o := by
  unfold insertLedgeredRepair
  split
  · exact insertMemoryRepair_keeps hk hne hd
  · exact hk

theorem insertLedgeredRepairs_keeps (hk : s.repairs.get? k = o)
    (hne : ∀ q ∈ repairs, q.repairId ≠ k) (hd : ∀ r, o = some r → r.2 ≠ .done) :
    (insertLedgeredRepairs now epoch s repairs).repairs.get? k = o :=
  foldl_keeps (fun _ _ hq hk => insertLedgeredRepair_keeps hk hq hd) hk hne

theorem insertLedgeredRepair_holds (repair q : RepairRecord) :
    (insertLedgeredRepair now epoch s repair).ledgerHolds q = s.ledgerHolds q := by
  have h : (insertLedgeredRepair now epoch s repair).physicalVersions = s.physicalVersions :=
    (insertLedgeredRepairs_only now epoch s [repair]).physicalVersions
  rw [MemoryState.ledgerHolds, MemoryState.ledgerHolds, h]

/-- Every repair of the list that the ledger backs has a row afterwards that is not `DONE`: a
pending one, or the one its task had. -/
theorem insertLedgeredRepairs_has (hq : q ∈ repairs)
    (hl : s.ledgerHolds q = true) (hnew : ∀ q ∈ repairs, s.repairs.get? q.repairId = none)
    (hnodup : (repairs.map (·.repairId)).Nodup) :
    ∃ k r, (insertLedgeredRepairs now epoch s repairs).repairs.get? k = some r ∧
      SameTask r.1 q ∧ (r.2 = .pending ∨ s.repairs.get? k = some r) ∧ r.2 ≠ .done := by
  induction repairs generalizing s with
  | nil => cases hq
  | cons p l ih =>
    rw [map_cons, nodup_cons] at hnodup
    rcases mem_cons.mp hq with rfl | hq
    · -- The row is made here, under an old key or the repair's own: the rest leaves it alone.
      have e : insertLedgeredRepairs now epoch s (q :: l) =
          insertLedgeredRepairs now epoch (insertMemoryRepair now s (q.underEpoch epoch)) l :=
        congrArg (insertLedgeredRepairs now epoch · l) (if_pos hl)
      obtain ⟨k, r, hk, ht, hr, hd, hkey⟩ :=
        insertMemoryRepair_has now s (q.underEpoch epoch)
      rw [e]
      refine ⟨k, r, ?_, ht, hr, hd⟩
      refine insertLedgeredRepairs_keeps hk (fun q' hq' h => ?_) (by rintro _ ⟨⟩; exact hd)
      rcases hkey with rfl | hkey
      · exact hnodup.1 (mem_map.mpr ⟨q', hq', h⟩)
      · exact hkey (h ▸ hnew q' (mem_cons_of_mem _ hq'))
    · have hnew' : ∀ q' ∈ l,
          (insertLedgeredRepair now epoch s p).repairs.get? q'.repairId = none := by
        intro q' hq'
        refine insertLedgeredRepair_keeps (hnew q' (mem_cons_of_mem _ hq')) (fun h => ?_)
          (by rintro _ ⟨⟩)
        exact hnodup.1 (mem_map.mpr ⟨q', hq', h.symm⟩)
      obtain ⟨k, r, hk, ht, hr, hd⟩ := ih hq (by rw [insertLedgeredRepair_holds]; exact hl) hnew'
        hnodup.2
      refine ⟨k, r, hk, ht, ?_, hd⟩
      rcases hr with hr | hr
      · exact .inl hr
      · rcases insertLedgeredRepair_row hr with hr | hr
        · exact .inr hr
        · exact .inl hr.2

end Insert

/-! ### A replacement -/

section Replace

variable [Sha256] {env : CallEnv} {epoch : Nat} {s s' : MemoryState} {a old : ObjectAuthority}

theorem mem_publicationRepairs (h : q ∈ publicationRepairs env n a) :
    q.kind = .replica ∧ q.repairId = env.uuid n := by
  unfold publicationRepairs at h
  split at h
  · rw [mem_singleton] at h
    subst h
    exact ⟨rfl, rfl⟩
  · cases h

theorem mem_cleanupRepairs_id (h : q ∈ cleanupRepairs env n a) :
    q.repairId = env.uuid n ∨ q.repairId = env.uuid (n + 1) := by
  unfold cleanupRepairs at h
  rcases mem_cons.mp h with rfl | h
  · exact .inl rfl
  · split at h
    · rw [mem_singleton] at h
      subst h
      exact .inr rfl
    · cases h

theorem cleanupRepairs_nodup (hi : Function.Injective env.uuid) {n : Nat} :
    ((cleanupRepairs env n a).map (·.repairId)).Nodup := by
  have hne : env.uuid n ≠ env.uuid (n + 1) := fun h => absurd (hi h) (by omega)
  unfold cleanupRepairs
  split
  · simpa [cleanupRepair, RepairRecord.copy] using hne
  · simp

/-- Every backend that the authority names has its cleanup. -/
theorem cleanupRepairs_names {env : CallEnv} {n : Nat} (h : a.Names b) :
    ∃ id, cleanupRepair env.now id a b ∈ cleanupRepairs env n a := by
  unfold cleanupRepairs
  rcases h with rfl | h
  · exact ⟨_, mem_cons_self⟩
  · rw [h]
    exact ⟨_, mem_cons_of_mem _ (mem_singleton.mpr rfl)⟩

/-- The state with the new authority and its publication repairs, before the cleanups. -/
def MemoryState.published (s : MemoryState) (env : CallEnv) (epoch : Nat) (a : ObjectAuthority) :
    MemoryState :=
  insertRepairs env.now epoch (s.setAuthority a) (publicationRepairs env 0 a)

variable (h : Installs env epoch a s s')

include h

/-- A replacement leaves every row that is not `DONE` as it is. -/
theorem Installs.keeps (he : env.Fresh s) (hk : s.repairs.get? k = some r) (hd : r.2 ≠ .done) :
    s'.repairs.get? k = some r := by
  have hk₁ : (s.published env epoch a).repairs.get? k = some r := by
    refine insertRepairs_keeps hk (fun q hq e => ?_) (by rintro _ ⟨⟩; exact hd)
    rw [(mem_publicationRepairs hq).2] at e
    exact absurd (he.unused 0) (by rw [e, hk]; nofun)
  rw [h.repairs]
  unfold MemoryState.replaceAuthority MemoryState.cleanupReplaced
  split
  · exact hk₁
  · split
    · exact hk₁
    · refine insertLedgeredRepairs_keeps hk₁ (fun q hq e => ?_) (by rintro _ ⟨⟩; exact hd)
      rcases mem_cleanupRepairs_id hq with hn | hn <;> rw [hn] at e
      · exact absurd (he.unused 1) (by rw [e, hk]; nofun)
      · exact absurd (he.unused 2) (by rw [e, hk]; nofun)

variable (hold : s.authorities.get? a.logical = some old) (hlive : old.tombstone = false)

include hold hlive

/-- The cleanups of the replaced authority, after the publication repairs of the new one. -/
theorem Installs.cleanups : s'.repairs = (insertLedgeredRepairs env.now epoch
    (s.published env epoch a) (cleanupRepairs env 1 old)).repairs := by
  rw [h.repairs, hold, MemoryState.replaceAuthority, MemoryState.cleanupReplaced]
  simp [hlive, MemoryState.published]

/-- A row that a replacement makes is pending. -/
theorem Installs.row (hk : s'.repairs.get? k = some r) :
    s.repairs.get? k = some r ∨ r.2 = .pending := by
  rw [h.cleanups hold hlive] at hk
  rcases insertLedgeredRepairs_row hk with hk | ⟨-, -, -, hp⟩
  · rcases insertRepairs_row hk with hk | ⟨-, -, -, hp⟩
    · exact .inl hk
    · exact .inr hp
  · exact .inr hp

/-- Every copy of the replaced authority has a cleanup afterwards: a pending one, or the one that
was there, if that was not `DONE`. -/
theorem Installs.has (he : env.Fresh s) (hb : old.Names b) (hc : s.holdsCopy old b = true) :
    ∃ k row, CleanupRow s'.repairs old.generation b k row ∧
      (row.2 = .pending ∨ s.repairs.get? k = some row) ∧ row.2 ≠ .done := by
  obtain ⟨id, hid⟩ := cleanupRepairs_names hb
  have hpub : OnlyRepairs (s.setAuthority a) (s.published env epoch a) :=
    insertRepairs_only env.now epoch _ _
  have hkey : ∀ n, 0 < n → (s.published env epoch a).repairs.get? (env.uuid n) = none := by
    intro n hn
    refine insertRepairs_keeps (he.unused n) (fun q hq e => ?_) (by rintro _ ⟨⟩)
    rw [(mem_publicationRepairs hq).2] at e
    exact absurd (he.injective e) (by omega)
  have hnew : ∀ q ∈ cleanupRepairs env 1 old,
      (s.published env epoch a).repairs.get? q.repairId = none := by
    intro q hq
    rcases mem_cleanupRepairs_id hq with hn | hn <;> rw [hn]
    · exact hkey 1 (by omega)
    · exact hkey 2 (by omega)
  have hholds :
      (s.published env epoch a).ledgerHolds (cleanupRepair env.now id old b) = true := by
    rw [MemoryState.ledgerHolds, hpub.physicalVersions]
    exact hc
  obtain ⟨k, row, hk, ht, hr, hd⟩ :=
    insertLedgeredRepairs_has hid hholds hnew (cleanupRepairs_nodup he.injective)
  rw [← h.cleanups hold hlive] at hk
  refine ⟨k, row, ⟨hk, ht.1, ht.2.1, ht.2.2⟩, ?_, hd⟩
  rcases hr with hp | hr
  · exact .inl hp
  · rcases insertRepairs_row hr with hr | ⟨-, -, -, hp⟩
    · exact .inr hr
    · exact .inl hp

/-- **A replacement orphans nothing exactly when no cleanup of the generation is stuck.** -/
theorem Installs.orphansNothing_iff (he : env.Fresh s) (hu : TasksUnique s'.repairs) :
    OrphansNothing s' old ↔ Cleanable s old := by
  have hcopy : ∀ b, s'.holdsCopy old b = s.holdsCopy old b := by
    intro b
    rw [MemoryState.holdsCopy, MemoryState.holdsCopy, h.physicalVersions]
  constructor
  · -- A stuck row is not `DONE`, so it is still there, and its task has no other row.
    intro ho
    refine ⟨fun b k row ⟨hk, hrow⟩ hw => ?_, fun b k row hb hc ⟨hk, hrow⟩ hdead => ?_⟩
    · exact ho.parked b k row ⟨h.keeps he hk (by rw [hw]; nofun), hrow⟩ hw
    · have hk' := h.keeps he hk (by rw [hdead]; nofun)
      obtain ⟨k', row', ⟨hget, hrow'⟩, hopen⟩ := ho.queued b hb ((hcopy b).trans hc)
      have htask : SameTask row.1 row'.1 :=
        ⟨hrow.1.trans hrow'.1.symm, hrow.2.1.trans hrow'.2.1.symm, hrow.2.2.trans hrow'.2.2.symm⟩
      obtain rfl := hu k k' row row' hk' hget htask
      rw [hk'] at hget
      cases hget
      rcases hopen with e | e <;> rw [hdead] at e <;> cases e
  · intro hclean
    refine ⟨fun b k row ⟨hk, hrow⟩ hw => ?_, fun b hb hc => ?_⟩
    · rcases h.row hold hlive hk with hk | hp
      · exact hclean.parked b k row ⟨hk, hrow⟩ hw
      · rw [hw] at hp
        cases hp
    · rw [hcopy] at hc
      obtain ⟨k, row, hrow, hr, hd⟩ := h.has hold hlive he hb hc
      refine ⟨k, row, hrow, ?_⟩
      rcases hr with hp | hr
      · exact .inl hp
      · -- The row that was there is neither done, parked nor dead.
        have hw := hclean.parked b k row ⟨hr, hrow.2⟩
        have hdead := hclean.dead b k row hb hc ⟨hr, hrow.2⟩
        cases hst : row.2 with
        | pending => exact .inl rfl
        | leased => exact .inr rfl
        | done => exact absurd hst hd
        | dead => exact absurd hst hdead
        | waitingCutover => exact absurd hst hw

omit h hold hlive in
/-- **In every reachable state, a replacement orphans nothing exactly when no cleanup of the
replaced generation is stuck.** -/
theorem replaced_orphansNothing_iff {c : Call} (r : Reach Init Step s)
    (h : Step s (.call env c) s') (hr : c.Replaces env s old) :
    OrphansNothing s' old ↔ Cleanable s old := by
  have hu : TasksUnique s'.repairs := tasksUnique_of_reach (r.step h)
  cases h with
  | call he =>
    obtain ho | ⟨a, cas, epoch, ha, -, hi⟩ := Call.next_installs env s hr.installing
    · exact absurd ho.authorities hr.replaced
    · obtain ⟨a', ha', hold⟩ := hr.candidate
      rw [ha] at ha'
      cases ha'
      exact hi.orphansNothing_iff hold hr.live he hu

end Replace

/-! ### An overwrite in the middle of a migration -/

/-- The authority that the migration leaves, and a call that overwrites it. -/
def halfMigrated : ObjectAuthority :=
  { sampleAuthority with primaryBackendId := "c", casVersion := 2, updatedAtMs := 3 }

def overwrite (cas : Nat) : Call := .publish { sampleAuthority with generation := ⟨2⟩ } (some cas)

theorem overwrite_replaces {cas : Nat} [Sha256] {env : CallEnv} {s : MemoryState}
    {old : ObjectAuthority} (hold : s.authorities.get? sampleKey = some old)
    (hlive : old.tombstone = false)
    (hne : ((overwrite cas).next env s).authorities.get? sampleKey ≠
      s.authorities.get? sampleKey) : (overwrite cas).Replaces env s old :=
  ⟨rfl, ⟨_, rfl, hold⟩, hlive, fun e => hne (congrArg (·.get? sampleKey) e)⟩

/-- **An overwrite strands the cleanup that the migration has parked.** -/
theorem overwrite_strands_parked_cleanup :
    ∃ (_ : Sha256) (s s' : MemoryState) (env : CallEnv) (c : Call) (old : ObjectAuthority),
      Reach Init Step s ∧ Step s (.call env c) s' ∧ c.Replaces env s old ∧
        ¬ OrphansNothing s' old := by
  let _ := sampleSha256
  have hreplaces :
      (overwrite 2).Replaces (.counting 4 60) (runSample migrationScript) halfMigrated :=
    overwrite_replaces (by decide +kernel) rfl (by decide +kernel)
  refine ⟨sampleSha256, runSample migrationScript, _, .counting 4 60, overwrite 2, halfMigrated,
    reach_runSample (by decide +kernel), .call (CallEnv.counting_fresh 4 (by decide +kernel)) rfl,
    hreplaces, fun h => ?_⟩
  have hparked : (((overwrite 2).next (.counting 4 60) (runSample migrationScript)).repairs.get?
      ⟨50⟩).map (fun row => (row.1.kind, row.1.generation, row.1.targetBackendId, row.2)) =
      some (.deleteGeneration, ⟨1⟩, "a", .waitingCutover) := by decide +kernel
  obtain ⟨row, hrow, e⟩ := Option.map_eq_some_iff.mp hparked
  simp only [Prod.mk.injEq] at e
  exact h.parked "a" ⟨50⟩ row ⟨hrow, e.1, e.2.1, e.2.2.1⟩ e.2.2.2

/-- A version is written and published, and a worker fails the first leg of the migration. -/
def failedScript : Script :=
  [(0, 10, .beginPhysicalWrite sampleWrite),
   (0, 10, .commitPhysicalWrite ⟨⟨103⟩, 1, "gateway", ⟨10⟩⟩ [] (some "v")),
   (0, 10, .publish sampleAuthority none),
   (1, 30, .enqueue firstLeg),
   (2, 40, .claimRepairs "w" 100 8),
   (3, 50, .failRepair ⟨40⟩)]

/-- An overwrite after that queues the cleanup of the version. -/
theorem overwrite_orphans_nothing :
    ∃ (_ : Sha256) (s s' : MemoryState) (env : CallEnv) (c : Call) (old : ObjectAuthority),
      s.holdsCopy old "a" = true ∧ c.Replaces env s old ∧ OrphansNothing s' old ∧
        s' = c.next env s := by
  let _ := sampleSha256
  have hreplaces : (overwrite 1).Replaces (.counting 4 60) (runSample failedScript)
      { sampleAuthority with casVersion := 1 } :=
    overwrite_replaces (by decide +kernel) rfl (by decide +kernel)
  have hrows : ((runSample failedScript).repairs.toList.all fun e =>
      e.2.1.kind != .deleteGeneration) = true := by decide +kernel
  have hnone : ∀ {b k row}, ¬ CleanupRow (runSample failedScript).repairs ⟨1⟩ b k row := by
    intro b k row h
    simpa [h.2.1] using List.all_eq_true.mp hrows (k, row) (KeyMap.mem_toList_iff.mpr h.1)
  have hclean : Cleanable (runSample failedScript)
      { sampleAuthority with casVersion := 1 } :=
    ⟨fun b k row h => absurd h hnone, fun b k row _ _ h => absurd h hnone⟩
  exact ⟨sampleSha256, _, _, .counting 4 60, overwrite 1, _, by decide +kernel, hreplaces,
    (replaced_orphansNothing_iff (reach_runSample (by decide +kernel))
      (.call (CallEnv.counting_fresh 4 (by decide +kernel)) rfl) hreplaces).mpr hclean, rfl⟩

end S4.Managed
