import S4.Managed.Effects

/-!
# Managed — Rows

The repair rows.  A task — kind, generation, target backend — has at most one row (`TasksUnique`),
because both ways of inserting a row look for the task first.  The calls that claim, renew, fail and
drop repairs keep what every row is about and open no row (`RowsFollow`); a row is opened only by
`insertMemoryRepair`, or by the activation of parked cleanups at a cut-over.

`OpenCleanup s l g b` says that a worker may at any time be told to delete generation `g` of `l` on
backend `b`: there is a `DeleteGeneration` row for it with status `PENDING` or `LEASED`.
-/

namespace S4.Managed

open Lib KeyMap List

variable {a b : RepairRecord} {rows rows' : Rows} {k : Uuid} {r r' : RepairRecord × RepairStatus}
  {epoch : Nat} {s' : MemoryState} {l : LogicalObjectKey} {repairs cleanups : List RepairRecord}
  {c : Call} {repair : RepairRecord}

abbrev Rows : Type := KeyMap Uuid (RepairRecord × RepairStatus)

/-- A worker holds the row or may claim it. -/
def RepairStatus.IsOpen (status : RepairStatus) : Prop := status = .pending ∨ status = .leased

/-- What a repair row is about. -/
structure SameSubject (a b : RepairRecord) : Prop where
  kind : a.kind = b.kind
  logical : a.logical = b.logical
  generation : a.generation = b.generation
  target : a.targetBackendId = b.targetBackendId

theorem SameSubject.refl (a : RepairRecord) : SameSubject a a := ⟨rfl, rfl, rfl, rfl⟩

/-- Two records of one task. -/
def SameTask (a b : RepairRecord) : Prop :=
  a.kind = b.kind ∧ a.generation = b.generation ∧ a.targetBackendId = b.targetBackendId

theorem RepairRecord.sameTask_iff : a.sameTask b = true ↔ SameTask a b := by
  simp only [sameTask, SameTask, Bool.and_eq_true, beq_iff_eq, and_assoc]

theorem SameTask.symm (h : SameTask a b) : SameTask b a :=
  ⟨h.1.symm, h.2.1.symm, h.2.2.symm⟩

theorem SameTask.trans {c : RepairRecord} (h : SameTask a b) (h' : SameTask b c) : SameTask a c :=
  ⟨h.1.trans h'.1, h.2.1.trans h'.2.1, h.2.2.trans h'.2.2⟩

theorem SameSubject.task (h : SameSubject a b) : SameTask a b :=
  ⟨h.kind, h.generation, h.target⟩

/-- No task has two rows. -/
def TasksUnique (rows : Rows) : Prop :=
  ∀ k₁ k₂ r₁ r₂, rows.get? k₁ = some r₁ → rows.get? k₂ = some r₂ → SameTask r₁.1 r₂.1 → k₁ = k₂

/-- A cleanup of generation `g` of `l` on backend `b` that a worker holds or may claim. -/
def OpenCleanup (rows : Rows) (l : LogicalObjectKey) (g : Uuid) (b : String) : Prop :=
  ∃ k r, rows.get? k = some r ∧ r.1.kind = .deleteGeneration ∧ r.1.logical = l ∧
    r.1.generation = g ∧ r.1.targetBackendId = b ∧ r.2.IsOpen

/-! ### Rows that only follow -/

/-- Every row of `rows'` is a row of `rows` under the same key, about the same subject, open only if
it was open there and parked only if nothing about it has changed. -/
def RowsFollow (rows rows' : Rows) : Prop :=
  ∀ k r', rows'.get? k = some r' →
    ∃ r, rows.get? k = some r ∧ SameSubject r'.1 r.1 ∧ (r'.2.IsOpen → r.2.IsOpen) ∧
      (r'.2 = .waitingCutover → r = r')

theorem RowsFollow.refl (rows : Rows) : RowsFollow rows rows :=
  fun _ r' h => ⟨r', h, .refl _, id, fun _ => rfl⟩

theorem RowsFollow.insert
    (h : RowsFollow rows rows') (hk : rows.get? k = some r) (hs : SameSubject r'.1 r.1)
    (ho : r'.2.IsOpen → r.2.IsOpen) (hw : r'.2 ≠ .waitingCutover) :
    RowsFollow rows (rows'.insert k r') := by
  intro k' r'' h'
  obtain ⟨rfl, rfl⟩ | ⟨-, h'⟩ := get?_insert_cases h'
  · exact ⟨r, hk, hs, ho, fun h => absurd h hw⟩
  · exact h k' r'' h'

theorem RowsFollow.retain (rows : Rows) (p : Uuid → RepairRecord × RepairStatus → Bool) :
    RowsFollow rows (rows.retain p) := by
  intro k r h
  rw [get?_retain, Option.filter_eq_some_iff] at h
  exact ⟨r, h.1, .refl _, id, fun _ => rfl⟩

theorem TasksUnique.of_tasks (hu : TasksUnique rows)
    (h : ∀ k r', rows'.get? k = some r' → ∃ r, rows.get? k = some r ∧ SameTask r'.1 r.1) :
    TasksUnique rows' := by
  intro k₁ k₂ r₁ r₂ h₁ h₂ ht
  obtain ⟨q₁, hq₁, hs₁⟩ := h k₁ r₁ h₁
  obtain ⟨q₂, hq₂, hs₂⟩ := h k₂ r₂ h₂
  exact hu k₁ k₂ q₁ q₂ hq₁ hq₂ ((hs₁.symm.trans ht).trans hs₂)

theorem RowsFollow.tasksUnique (h : RowsFollow rows rows')
    (hu : TasksUnique rows) : TasksUnique rows' := by
  refine hu.of_tasks fun k r' hk => ?_
  obtain ⟨r, hr, hs, -⟩ := h k r' hk
  exact ⟨r, hr, hs.task⟩

theorem TasksUnique.insert_new (hu : TasksUnique rows)
    (hn : ∀ k' r', rows.get? k' = some r' → ¬ SameTask r'.1 r.1) :
    TasksUnique (rows.insert k r) := by
  intro k₁ k₂ r₁ r₂ h₁ h₂ ht
  obtain ⟨e₁, rfl⟩ | ⟨-, h₁⟩ := get?_insert_cases h₁ <;>
    obtain ⟨e₂, rfl⟩ | ⟨-, h₂⟩ := get?_insert_cases h₂
  · exact e₁.trans e₂.symm
  · exact absurd ht.symm (hn k₂ r₂ h₂)
  · exact absurd ht (hn k₁ r₁ h₁)
  · exact hu k₁ k₂ r₁ r₂ h₁ h₂ ht

theorem RowsFollow.openCleanup (h : RowsFollow rows rows')
    {g : Uuid} {b : String} (ho : OpenCleanup rows' l g b) : OpenCleanup rows l g b := by
  obtain ⟨k, r', hk, h₁, h₂, h₃, h₄, h₅⟩ := ho
  obtain ⟨r, hr, hs, hopen, -⟩ := h k r' hk
  exact ⟨k, r, hr, hs.kind ▸ h₁, hs.logical ▸ h₂, hs.generation ▸ h₃, hs.target ▸ h₄, hopen h₅⟩

/-! ### Inserting a row -/

section Insert

variable {now : Int} {s : MemoryState} {repair : RepairRecord}

theorem revive_subject {existing : RepairRecord} :
    SameSubject (repair.revive existing now) repair :=
  ⟨rfl, rfl, rfl, rfl⟩

theorem insertMemoryRepair_cases (now : Int) (s : MemoryState) (repair : RepairRecord) :
    (∃ k existing, s.repairs.get? k = some (existing, .done) ∧ SameTask existing repair ∧
      (insertMemoryRepair now s repair).repairs =
        s.repairs.insert k (repair.revive existing now, .pending)) ∨
    (∃ k r, s.repairs.get? k = some r ∧ SameTask r.1 repair ∧ r.2 ≠ .done ∧
      (insertMemoryRepair now s repair).repairs = s.repairs) ∨
    ((∀ k r, s.repairs.get? k = some r → ¬ SameTask r.1 repair) ∧
      (insertMemoryRepair now s repair).repairs =
        s.repairs.insert repair.repairId (repair, .pending)) := by
  unfold insertMemoryRepair
  cases h : s.repairs.findEntry fun row => row.1.sameTask repair with
  | none =>
    refine .inr (.inr ⟨fun k r hk ht => ?_, rfl⟩)
    have := findEntry_none h hk
    rw [RepairRecord.sameTask_iff.mpr ht] at this
    cases this
  | some e =>
    obtain ⟨k, existing, status⟩ := e
    obtain ⟨hk, ht⟩ := findEntry_some h
    have ht := RepairRecord.sameTask_iff.mp ht
    dsimp only
    split
    · rename_i hd
      subst hd
      exact .inl ⟨k, existing, hk, ht, rfl⟩
    · rename_i hd
      exact .inr (.inl ⟨k, _, hk, ht, hd, rfl⟩)

/-- A row afterwards was there before, or is the repair's own, pending. -/
theorem insertMemoryRepair_row (h : (insertMemoryRepair now s repair).repairs.get? k = some r) :
    s.repairs.get? k = some r ∨ (SameSubject r.1 repair ∧ r.2 = .pending) := by
  obtain ⟨k', existing, -, -, e⟩ | ⟨-, -, -, -, -, e⟩ | ⟨-, e⟩ :=
    insertMemoryRepair_cases now s repair
  · rw [e] at h
    obtain ⟨-, rfl⟩ | ⟨-, h⟩ := get?_insert_cases h
    · exact .inr ⟨revive_subject, rfl⟩
    · exact .inl h
  · rw [e] at h
    exact .inl h
  · rw [e] at h
    obtain ⟨-, rfl⟩ | ⟨-, h⟩ := get?_insert_cases h
    · exact .inr ⟨.refl _, rfl⟩
    · exact .inl h

theorem insertMemoryRepair_unique (hu : TasksUnique s.repairs) :
    TasksUnique (insertMemoryRepair now s repair).repairs := by
  obtain ⟨k, existing, hk, ht, e⟩ | ⟨-, -, -, -, -, e⟩ | ⟨hn, e⟩ :=
    insertMemoryRepair_cases now s repair
  · rw [e]
    refine hu.of_tasks fun k' r' h => ?_
    obtain ⟨rfl, rfl⟩ | ⟨-, h⟩ := get?_insert_cases h
    · exact ⟨_, hk, revive_subject.task.trans ht.symm⟩
    · exact ⟨r', h, (SameSubject.refl _).task⟩
  · rw [e]
    exact hu
  · rw [e]
    exact hu.insert_new hn

/-- A row that is not `DONE` stays as it is, and the only new key is the repair's own. -/
theorem insertMemoryRepair_keeps {o : Option (RepairRecord × RepairStatus)}
    (hk : s.repairs.get? k = o) (hne : repair.repairId ≠ k) (hd : ∀ r, o = some r → r.2 ≠ .done) :
    (insertMemoryRepair now s repair).repairs.get? k = o := by
  obtain ⟨k', existing, hk', -, e⟩ | ⟨-, -, -, -, -, e⟩ | ⟨-, e⟩ :=
    insertMemoryRepair_cases now s repair
  · have hkk' : k ≠ k' := by
      rintro rfl
      exact hd _ (hk.symm.trans hk') rfl
    rw [e, get?_insert_ne _ _ hkk']
    exact hk
  · rw [e]
    exact hk
  · rw [e, get?_insert_ne _ _ hne.symm]
    exact hk

/-- Afterwards the task has a row that is not `DONE`: the one it had, or a pending one, under an old
key or the repair's own. -/
theorem insertMemoryRepair_has (now : Int) (s : MemoryState) (repair : RepairRecord) :
    ∃ k r, (insertMemoryRepair now s repair).repairs.get? k = some r ∧ SameTask r.1 repair ∧
      (r.2 = .pending ∨ s.repairs.get? k = some r) ∧ r.2 ≠ .done ∧
      (k = repair.repairId ∨ s.repairs.get? k ≠ none) := by
  obtain ⟨k, existing, hk, -, e⟩ | ⟨k, r, hk, ht, hd, e⟩ | ⟨-, e⟩ :=
    insertMemoryRepair_cases now s repair
  · refine ⟨k, (repair.revive existing now, .pending), ?_, revive_subject.task, .inl rfl,
      by simp, .inr (by simp [hk])⟩
    rw [e, get?_insert_self]
  · exact ⟨k, r, e ▸ hk, ht, .inr hk, hd, .inr (by simp [hk])⟩
  · refine ⟨repair.repairId, (repair, .pending), ?_, (SameSubject.refl _).task, .inl rfl,
      by simp, .inl rfl⟩
    rw [e, get?_insert_self]

theorem insertWaiting_cases (s : MemoryState) (repair : RepairRecord) :
    (insertMemoryWaitingPlacementCleanup s repair).repairs = s.repairs ∨
    ((∀ k r, s.repairs.get? k = some r → ¬ SameTask r.1 repair) ∧
      (insertMemoryWaitingPlacementCleanup s repair).repairs =
        s.repairs.insert repair.repairId (repair, .waitingCutover)) := by
  unfold insertMemoryWaitingPlacementCleanup
  split
  · exact .inl rfl
  rename_i hn
  refine .inr ⟨fun k r hk ht => ?_, rfl⟩
  have := KeyMap.any_eq_false_iff.mp (Bool.eq_false_iff.mpr hn) k r hk
  rw [RepairRecord.sameTask_iff.mpr ht] at this
  cases this

/-- A row afterwards was there before, or is the repair's own, parked. -/
theorem insertWaiting_row
    (h : (insertMemoryWaitingPlacementCleanup s repair).repairs.get? k = some r) :
    s.repairs.get? k = some r ∨ r = (repair, .waitingCutover) := by
  obtain e | ⟨-, e⟩ := insertWaiting_cases s repair
  · rw [e] at h
    exact .inl h
  · rw [e, get?_insert] at h
    split at h
    · exact .inr (Option.some.inj h).symm
    · exact .inl h

theorem insertWaiting_unique (hu : TasksUnique s.repairs) :
    TasksUnique (insertMemoryWaitingPlacementCleanup s repair).repairs := by
  obtain e | ⟨hn, e⟩ := insertWaiting_cases s repair
  · rw [e]
    exact hu
  · rw [e]
    exact hu.insert_new hn

/-! ### Inserting a list of rows -/

theorem insertRepairs_unique {repairs : List RepairRecord}
    (hu : TasksUnique s.repairs) : TasksUnique (insertRepairs now epoch s repairs).repairs := by
  unfold insertRepairs
  induction repairs generalizing s with
  | nil => exact hu
  | cons r l ih => exact ih (insertMemoryRepair_unique hu)

theorem insertLedgeredRepair_unique (hu : TasksUnique s.repairs) :
    TasksUnique (insertLedgeredRepair now epoch s repair).repairs := by
  unfold insertLedgeredRepair
  split
  · exact insertMemoryRepair_unique hu
  · exact hu

theorem insertLedgeredRepairs_unique {repairs : List RepairRecord} (hu : TasksUnique s.repairs) :
    TasksUnique (insertLedgeredRepairs now epoch s repairs).repairs := by
  unfold insertLedgeredRepairs
  induction repairs generalizing s with
  | nil => exact hu
  | cons r l ih => exact ih (insertLedgeredRepair_unique hu)

theorem parkCleanups_unique (hu : TasksUnique s.repairs) :
    TasksUnique (s.parkCleanups repair cleanups).repairs := by
  unfold MemoryState.parkCleanups
  induction cleanups generalizing s with
  | nil => exact hu
  | cons r l ih => exact ih (insertWaiting_unique hu)

/-- A row behind a list of insertions was there, or one of them has made it. -/
theorem foldl_row {f : MemoryState → RepairRecord → MemoryState} {P : RepairRecord → Prop}
    (hf : ∀ s q, (f s q).repairs.get? k = some r → s.repairs.get? k = some r ∨ P q)
    (h : (repairs.foldl f s).repairs.get? k = some r) :
    s.repairs.get? k = some r ∨ ∃ q ∈ repairs, P q := by
  induction repairs generalizing s with
  | nil => exact .inl h
  | cons q l ih =>
    obtain h | ⟨q', hq', hs⟩ := ih h
    · exact (hf s q h).imp_right fun hs => ⟨q, mem_cons_self, hs⟩
    · exact .inr ⟨q', mem_cons_of_mem _ hq', hs⟩

theorem insertRepairs_row (h : (insertRepairs now epoch s repairs).repairs.get? k = some r) :
    s.repairs.get? k = some r ∨ ∃ q ∈ repairs, SameSubject r.1 q ∧ r.2 = .pending := by
  refine foldl_row (fun s q h => ?_) h
  obtain h | ⟨hs, hp⟩ := insertMemoryRepair_row h
  · exact .inl h
  · exact .inr ⟨⟨hs.1, hs.2, hs.3, hs.4⟩, hp⟩

theorem insertLedgeredRepair_row
    (h : (insertLedgeredRepair now epoch s repair).repairs.get? k = some r) :
    s.repairs.get? k = some r ∨ (SameSubject r.1 repair ∧ r.2 = .pending) := by
  unfold insertLedgeredRepair at h
  split at h
  · obtain h | ⟨hs, hp⟩ := insertMemoryRepair_row h
    · exact .inl h
    · exact .inr ⟨⟨hs.1, hs.2, hs.3, hs.4⟩, hp⟩
  · exact .inl h

theorem insertLedgeredRepairs_row
    (h : (insertLedgeredRepairs now epoch s repairs).repairs.get? k = some r) :
    s.repairs.get? k = some r ∨ ∃ q ∈ repairs, SameSubject r.1 q ∧ r.2 = .pending :=
  foldl_row (fun _ _ h => insertLedgeredRepair_row h) h

theorem parkCleanups_row (h : (s.parkCleanups repair cleanups).repairs.get? k = some r) :
    s.repairs.get? k = some r ∨ ∃ q ∈ cleanups, SameSubject r.1 q ∧ r.2 = .waitingCutover := by
  refine foldl_row (fun s q h => ?_) h
  obtain h | rfl := insertWaiting_row h
  · exact .inl h
  · exact .inr ⟨⟨rfl, rfl, rfl, rfl⟩, rfl⟩

end Insert

/-! ### Claiming, renewing and failing -/

section Leases

variable (env : CallEnv) (s : MemoryState) {now : Int}

theorem RowsFollow.leases (h : RowsFollow rows rows') (l : List (Uuid × RepairRecord))
    (hl : ∀ c ∈ l, ∃ r, rows.get? c.1 = some r ∧ SameSubject c.2 r.1 ∧ r.2.IsOpen) :
    RowsFollow rows (l.foldl (fun rows c => rows.insert c.1 (c.2, .leased)) rows') := by
  induction l generalizing rows' with
  | nil => exact h
  | cons c l ih =>
    obtain ⟨r, hr, hs, ho⟩ := hl c mem_cons_self
    exact ih (h.insert hr hs (fun _ => ho) (by simp)) fun c' hc' => hl c' (mem_cons_of_mem _ hc')

theorem open_of_claimable {row : RepairRecord × RepairStatus}
    (h : s.claimable now row = true) : row.2.IsOpen := by
  simp only [MemoryState.claimable, Bool.and_eq_true, Bool.or_eq_true, beq_iff_eq] at h
  rcases h.1.2 with h | h
  · exact .inl h
  · exact .inr h.1

theorem claimRepairs_follow (owner : String) (deadline : Int) (limit : Nat) :
    RowsFollow s.repairs (claimRepairs env s owner deadline limit).2.repairs := by
  refine (RowsFollow.refl s.repairs).leases _ fun c hc => ?_
  obtain ⟨⟨⟨k, r⟩, i⟩, hmem, rfl⟩ := mem_map.mp hc
  have hm := mem_of_mem_take (fst_mem_of_mem_zipIdx hmem)
  rw [mem_insertionSort, mem_filter] at hm
  exact ⟨r, mem_toList_iff.mp hm.1, ⟨rfl, rfl, rfl, rfl⟩, open_of_claimable s hm.2⟩

theorem leasedRow_some {token : Uuid}
    (h : s.leasedRow now token = some (k, repair)) : s.repairs.get? k = some (repair, .leased) := by
  unfold MemoryState.leasedRow at h
  split at h
  · cases h
  rename_i k' r status hf
  split at h
  · cases h
  rename_i hl
  cases h
  rw [(findEntry_some hf).1, not_not.mp (not_or.mp hl).1]

theorem renewRepair_follow (token : Uuid) (deadline : Int) :
    RowsFollow s.repairs (renewRepair env s token deadline).2.repairs := by
  unfold renewRepair
  split
  · exact .refl _
  rename_i hl
  exact (RowsFollow.refl _).insert (leasedRow_some s hl) ⟨rfl, rfl, rfl, rfl⟩
    (fun _ => .inr rfl) (by simp)

theorem failRepair_follow (token : Uuid) :
    RowsFollow s.repairs (failRepair env s token).2.repairs := by
  unfold failRepair
  split
  · exact .refl _
  rename_i hl
  refine (RowsFollow.refl _).insert (leasedRow_some s hl) ?_ (fun _ => .inr rfl) ?_
  · dsimp only
    split <;> exact ⟨rfl, rfl, rfl, rfl⟩
  · dsimp only
    split <;> simp

end Leases

/-! ### Completing a repair -/

/-- A row after an activation is the row from before, opened if it waited for the cut-over. -/
theorem activateCleanups_row {s : MemoryState}
    (h : (s.activateCleanups repair).repairs.get? k = some r') :
    ∃ r, s.repairs.get? k = some r ∧ r'.1 = r.1 ∧
      (r'.2 = r.2 ∨ (waitsFor repair r = true ∧ r'.2 = .pending)) := by
  simp only [MemoryState.activateCleanups, get?_mapValues, Option.map_eq_some_iff] at h
  obtain ⟨r, hr, rfl⟩ := h
  refine ⟨r, hr, ?_⟩
  split
  · rename_i hw
    exact ⟨rfl, .inr ⟨hw, rfl⟩⟩
  · exact ⟨rfl, .inl rfl⟩

theorem activateCleanups_unique {s : MemoryState}
    (hu : TasksUnique s.repairs) : TasksUnique (s.activateCleanups repair).repairs := by
  refine hu.of_tasks fun k r' h => ?_
  obtain ⟨r, hr, e, -⟩ := activateCleanups_row h
  exact ⟨r, hr, e ▸ (SameSubject.refl _).task⟩

section Complete

variable [Sha256] (env : CallEnv) (s : MemoryState) (repair : RepairRecord)

/-- The repair holds the live lease of its row. -/
def MemoryState.holdsRepair (s : MemoryState) (now : Int) (repair : RepairRecord) : Bool :=
  repair.leaseToken == some repair.id &&
    s.namespaceEpoch repair.logical.tenantId == repair.namespaceEpoch &&
    (s.repairs.get? repair.repairId).any fun row => row.2 == .leased &&
      row.1.leaseToken == some repair.id && !row.1.leaseExpiresAtMs.all (· ≤ now)

/-- A finished repair that moves the authority it was made for.  `rows` are the rows with the
repair's own marked `DONE`.  A placement leg then parks the cleanups of the locations it left, and
the leg that cuts the placement over activates everything parked for it. -/
structure Completes (env : CallEnv) (repair : RepairRecord) (previous moved : ObjectAuthority)
    (marked s s' : MemoryState) : Prop where
  held : s.holdsRepair env.now repair = true
  found : s.repairable repair = some previous
  applied : applyRepairToAuthority previous repair = .ok (true, moved)
  authorities : s'.authorities = s.authorities.insert repair.logical (moved.bump env.now)
  marks : RowsFollow s.repairs marked.repairs
  copies : repair.kind ≠ .placement → s'.repairs = marked.repairs
  parks : repair.kind = .placement → moved.placementVersion ≠ repair.placementVersion →
    s'.repairs = (marked.parkCleanups repair
      (placementCleanupRepairs env previous (moved.bump env.now))).repairs
  cutsOver : repair.kind = .placement → moved.placementVersion = repair.placementVersion →
    s'.repairs = ((marked.parkCleanups repair
      (placementCleanupRepairs env previous (moved.bump env.now))).activateCleanups repair).repairs

/-- **A finished repair marks its row, and may move its authority.**  In every other case the
authorities stay and no row is opened. -/
theorem completeRepair_cases :
    ((completeRepair env s repair).2.authorities = s.authorities ∧
      RowsFollow s.repairs (completeRepair env s repair).2.repairs) ∨
    ∃ previous moved marked,
      Completes env repair previous moved marked s (completeRepair env s repair).2 := by
  unfold completeRepair
  split
  · exact .inl ⟨rfl, .refl _⟩
  rename_i htoken
  split
  · exact .inl ⟨rfl, .refl _⟩
  rename_i hepoch
  cases hrow : s.repairs.get? repair.repairId with
  | none => exact .inl ⟨rfl, .refl _⟩
  | some row =>
    obtain ⟨stored, status⟩ := row
    dsimp only
    split
    · exact .inl ⟨rfl, .refl _⟩
    rename_i hlease
    have hheld : s.holdsRepair env.now repair = true := by
      simp only [not_or, not_not] at hlease
      simp only [MemoryState.holdsRepair, hrow, Option.any_some, Bool.and_eq_true,
        beq_iff_eq, Bool.not_eq_true']
      exact ⟨⟨not_not.mp htoken, not_not.mp hepoch⟩, ⟨hlease.1, hlease.2.1⟩,
        Bool.eq_false_iff.mpr hlease.2.2⟩
    have hmark : RowsFollow s.repairs
        (s.repairs.insert repair.repairId (stored.unlease env.now, .done)) :=
      (RowsFollow.refl _).insert hrow ⟨rfl, rfl, rfl, rfl⟩
        (fun h => by rcases h with h | h <;> cases h) (by simp)
    unfold MemoryState.applyRepair
    split
    · exact .inl ⟨rfl, hmark⟩
    rename_i previous hfound
    split
    · exact .inl ⟨rfl, hmark⟩
    · exact .inl ⟨rfl, hmark⟩
    · rename_i moved happ
      have hfound : s.repairable repair = some previous := hfound
      dsimp only
      have ho := MemoryState.parkCleanups_only
        { s with
          repairs := s.repairs.insert repair.repairId (stored.unlease env.now, .done)
          authorities := s.authorities.insert repair.logical (moved.bump env.now) }
        repair (placementCleanupRepairs env previous (moved.bump env.now))
      by_cases hk : repair.kind = .placement
      · rw [if_pos hk]
        by_cases hv : moved.placementVersion = repair.placementVersion
        · have hv' : (moved.bump env.now).placementVersion = repair.placementVersion := hv
          rw [if_pos hv']
          exact .inr ⟨previous, moved, _, hheld, hfound, happ, ho.authorities, hmark,
            fun h => absurd hk h, fun _ h => absurd hv h, fun _ _ => rfl⟩
        · have hv' : (moved.bump env.now).placementVersion ≠ repair.placementVersion := hv
          rw [if_neg hv']
          exact .inr ⟨previous, moved, _, hheld, hfound, happ, ho.authorities, hmark,
            fun h => absurd hk h, fun _ _ => rfl, fun _ h => absurd h hv⟩
      · rw [if_neg hk]
        exact .inr ⟨previous, moved, { s with
          repairs := s.repairs.insert repair.repairId (stored.unlease env.now, .done) },
          hheld, hfound, happ, rfl, hmark, fun _ => rfl, fun h => absurd h hk,
          fun h => absurd h hk⟩

end Complete

/-! ### No call gives a task a second row -/

section Unique

variable [Sha256] {env : CallEnv} {s : MemoryState}

omit [Sha256] in
theorem enqueue_cases (env : CallEnv) (s : MemoryState) (repair : RepairRecord) :
    (enqueue env s repair).2 = s ∨ (s.fenced repair.logical.tenantId = false ∧
      (repair.kind = .deleteGeneration → s.ledgerHolds repair = true) ∧
      ∃ epoch, (enqueue env s repair).2 =
        insertMemoryRepair env.now s (repair.underEpoch epoch)) := by
  unfold enqueue
  split
  · exact .inl rfl
  rename_i hfence
  have hfence := Bool.eq_false_iff.mpr hfence
  dsimp only
  split
  · split
    · exact .inl rfl
    · rename_i hk hne
      split
      · exact .inl rfl
      refine .inr ⟨hfence, fun _ => ?_, _, rfl⟩
      rw [List.isEmpty_iff, List.filter_eq_nil_iff] at hne
      simp only [not_forall, not_not] at hne
      obtain ⟨target, hmem, ht⟩ := hne
      exact List.any_eq_true.mpr ⟨target, hmem, ht⟩
  · rename_i hk
    split
    · exact .inl rfl
    · exact .inr ⟨hfence, fun h => absurd h hk, _, rfl⟩

theorem cleanupReplaced_unique {existing : Option ObjectAuthority}
    (hu : TasksUnique s.repairs) : TasksUnique (s.cleanupReplaced env epoch existing).repairs := by
  unfold MemoryState.cleanupReplaced
  split
  · exact hu
  split
  · exact hu
  · exact insertLedgeredRepairs_unique hu

theorem Installs.tasksUnique {authority : ObjectAuthority}
    (h : Installs env epoch authority s s') (hu : TasksUnique s.repairs) :
    TasksUnique s'.repairs := by
  rw [h.repairs]
  exact cleanupReplaced_unique (insertRepairs_unique hu)

theorem Completes.tasksUnique {previous moved : ObjectAuthority}
    {marked : MemoryState} (h : Completes env repair previous moved marked s s')
    (hu : TasksUnique s.repairs) : TasksUnique s'.repairs := by
  have hm := h.marks.tasksUnique hu
  by_cases hk : repair.kind = .placement
  · by_cases hv : moved.placementVersion = repair.placementVersion
    · rw [h.cutsOver hk hv]
      exact activateCleanups_unique (parkCleanups_unique hm)
    · rw [h.parks hk hv]
      exact parkCleanups_unique hm
  · rw [h.copies hk]
    exact hm

omit [Sha256] in
theorem Drops.follow {tenant : String} (h : Drops env tenant s s') :
    RowsFollow s.repairs s'.repairs := by
  rw [h.repairs]
  exact .retain _ _

theorem Call.next_tasksUnique (hu : TasksUnique s.repairs) :
    TasksUnique (c.next env s).repairs := by
  by_cases ht : c.touchesObjects = false
  · rw [(Call.next_objects env s ht).repairs]
    exact hu
  by_cases hi : c.installing = true
  · obtain h | ⟨authority, cas, epoch, -, -, h⟩ := Call.next_installs env s hi
    · rw [h.repairs]
      exact hu
    · exact h.tasksUnique hu
  · have hpurge := c.next_purge env s
    cases c with
    | proveLogicalAbort id error physical =>
      simp only [Call.next, runCall, Outcome.unit]
      obtain ⟨h, -⟩ | ⟨operation, usage, proven, -, -, -, -, h | ⟨a, epoch, -, h⟩⟩ :=
        proveLogicalAbort_cases env s id error physical
      · rw [h]
        exact hu
      · rw [h]
        exact hu
      · rw [h]
        exact insertLedgeredRepairs_unique hu
    | advancePlacementVersion logical cas placement =>
      simp only [Call.next, runCall, Outcome.unit]
      obtain h | ⟨a, -, h⟩ := advancePlacementVersion_cases env s logical cas placement
      all_goals
        rw [h]
        exact hu
    | enqueue repair =>
      simp only [Call.next, runCall, Outcome.unit]
      obtain h | ⟨-, -, epoch, h⟩ := enqueue_cases env s repair
      · rw [h]
        exact hu
      · rw [h]
        exact insertMemoryRepair_unique hu
    | claimRepairs owner deadline limit =>
      exact (claimRepairs_follow env s owner deadline limit).tasksUnique hu
    | renewRepair token deadline => exact (renewRepair_follow env s token deadline).tasksUnique hu
    | failRepair token => exact (failRepair_follow env s token).tasksUnique hu
    | completeRepair repair =>
      obtain ⟨-, h⟩ | ⟨previous, moved, marked, h⟩ := completeRepair_cases env s repair
      · exact h.tasksUnique hu
      · exact h.tasksUnique hu
    | purgeNamespace | namespacePurgeStatus =>
      obtain ⟨h, -⟩ | ⟨tenant, h⟩ := hpurge rfl
      · exact h.repairs ▸ hu
      · exact h.follow.tasksUnique hu
    | publish | tombstone | commitLogicalPut | commitLogicalDelete => exact absurd rfl hi
    | _ => exact absurd rfl ht

/-- **In every reachable state a task has at most one row.** -/
theorem tasksUnique_of_reach (r : Reach Init Step s) : TasksUnique s.repairs := by
  refine r.invariant (I := fun s => TasksUnique s.repairs) ?_ ?_
  · rintro s rfl k₁ k₂ r₁ r₂ h
    cases h
  · intro s e s' _ hu hs
    cases hs with
    | call => exact Call.next_tasksUnique hu
    | rehash h =>
      refine hu.of_tasks fun k r' hr' => ?_
      exact ⟨r', (h.repairs.get?_eq k).trans hr', (SameSubject.refl _).task⟩

end Unique

/-! ### What a call does to the authorities -/

section Authorities

variable [Sha256] (env : CallEnv) (s : MemoryState)

omit [Sha256] in
/-- A repairable authority is live and of the repair's generation. -/
theorem repairable_some {s : MemoryState} {a : ObjectAuthority}
    (h : s.repairable repair = some a) :
    s.authorities.get? repair.logical = some a ∧ a.tombstone = false ∧
      a.generation = repair.generation ∧ repair.kind ≠ .deleteGeneration := by
  unfold MemoryState.repairable at h
  split at h
  · cases h
  rename_i hk
  rw [Option.filter_eq_some_iff] at h
  simp only [Bool.and_eq_true, beq_iff_eq, Bool.not_eq_true'] at h
  exact ⟨h.1, h.2.2, h.2.1.1, hk⟩

/-- The call changes one authority in place: it stays the authority of its generation, and only a
finished repair moves its primary. -/
structure ChangesInPlace (now : Int) (s : MemoryState) (c : Call) (old new : ObjectAuthority) :
    Prop where
  logical : new.logical = old.logical
  generation : new.generation = old.generation
  size : new.size = old.size
  tombstone : new.tombstone = old.tombstone
  primaryVersionId : new.primaryVersionId = old.primaryVersionId
  primary : new.primaryBackendId = old.primaryBackendId ∨ ∃ repair, c = .completeRepair repair ∧
    s.holdsRepair now repair = true ∧ s.repairable repair = some old ∧
      repair.targetRole = .primary ∧
    new.primaryBackendId = repair.targetBackendId ∧
    (repair.kind = .placement → old.placementVersion ≤ repair.placementVersion ∧
      repair.placementPrimaryBackendId = some repair.targetBackendId)

/-- **A call leaves the authorities alone, installs one, changes one in place, or drops a tenant.**
-/
theorem Call.next_authorities (c : Call) :
    (c.next env s).authorities = s.authorities ∨
    (c.installing = true ∧ ∃ authority cas epoch, c.candidate env s = some authority ∧
      c.enabled s = true ∧ Installs env epoch
        (authority.stamp env.now cas (s.authorities.get? authority.logical)) s
        (c.next env s)) ∨ (∃ l old new, s.authorities.get? l = some old ∧
      (c.next env s).authorities = s.authorities.insert l new ∧
        ChangesInPlace env.now s c old new) ∨
    ∃ tenant, Drops env tenant s (c.next env s) := by
  by_cases ht : c.touchesObjects = false
  · exact .inl (c.next_objects env s ht).authorities
  by_cases hi : c.installing = true
  · obtain ho | h := c.next_installs env s hi
    · exact .inl ho.authorities
    · exact .inr (.inl ⟨hi, h⟩)
  have hpurge := c.next_purge env s
  cases c with
  | proveLogicalAbort id error physical =>
    obtain ⟨e, -⟩ | ⟨_, _, _, -, -, -, ha, -⟩ := proveLogicalAbort_cases env s id error physical
    · exact .inl (congrArg _ e)
    · exact .inl ha.authorities
  | advancePlacementVersion logical cas placement =>
    obtain e | ⟨a, ha, e⟩ := advancePlacementVersion_cases env s logical cas placement
    · exact .inl (congrArg _ e)
    · exact .inr (.inr (.inl ⟨logical, a,
        { a with placementVersion := placement.version }.bump env.now, ha,
        congrArg (·.authorities) e, rfl, rfl, rfl, rfl, rfl, .inl rfl⟩))
  | enqueue repair =>
    obtain e | ⟨-, -, epoch, e⟩ := enqueue_cases env s repair
    · exact .inl (congrArg _ e)
    · refine .inl ?_
      simp only [Call.next, runCall, Outcome.unit, e]
      exact (insertMemoryRepair_only env.now s _).authorities
  | claimRepairs => exact .inl rfl
  | renewRepair | failRepair =>
    refine .inl ?_
    simp only [Call.next, runCall, Managed.renewRepair, Managed.failRepair]
    split <;> rfl
  | completeRepair repair =>
    obtain ⟨e, -⟩ | ⟨previous, moved, marked, hc⟩ := completeRepair_cases env s repair
    · exact .inl e
    · have hm := applyRepairToAuthority_moves hc.applied
      refine .inr (.inr (.inl ⟨_, previous, _, (repairable_some hc.found).1, hc.authorities,
        hm.logical, hm.generation, hm.size, hm.tombstone, hm.primaryVersionId, ?_⟩))
      rcases hm.primary with e | ⟨hrole, e⟩
      · exact .inl e
      · exact .inr ⟨repair, rfl, hc.held, hc.found, hrole, e,
          fun hk => ⟨(hm.placement hk).1, (hm.placement hk).2 hrole⟩⟩
  | purgeNamespace | namespacePurgeStatus =>
    obtain ⟨ho, -⟩ | hd := hpurge rfl
    · exact .inl ho.authorities
    · exact .inr (.inr (.inr hd))
  | publish | tombstone | commitLogicalPut | commitLogicalDelete => exact absurd rfl hi
  | _ => exact absurd rfl ht

end Authorities

/-! ### Authorities stand under their own keys -/

section Keyed

variable [Sha256] {env : CallEnv} {s : MemoryState}

def AuthoritiesKeyed (s : MemoryState) : Prop :=
  ∀ l a, s.authorities.get? l = some a → a.logical = l

omit [Sha256] in
theorem AuthoritiesKeyed.insert {a : ObjectAuthority}
    (h : AuthoritiesKeyed s) (hs : s'.authorities = s.authorities.insert l a) (hl : a.logical = l) :
    AuthoritiesKeyed s' := by
  intro l' a' h'
  rw [hs] at h'
  obtain ⟨rfl, rfl⟩ | ⟨-, h'⟩ := get?_insert_cases h'
  · exact hl
  · exact h l' a' h'

theorem Call.next_keyed (h : AuthoritiesKeyed s) : AuthoritiesKeyed (c.next env s) := by
  obtain e | ⟨-, authority, cas, epoch, -, -, hin⟩ | ⟨l, old, new, hold, e, hch⟩ | ⟨tenant, hd⟩ :=
    c.next_authorities env s
  · intro l a ha
    rw [e] at ha
    exact h l a ha
  · exact h.insert hin.authorities rfl
  · exact h.insert e (hch.logical.trans (h l old hold))
  · intro l a ha
    rw [hd.authorities, MemoryState.dropNamespace, get?_retain,
      Option.filter_eq_some_iff] at ha
    exact h l a ha.1

theorem authoritiesKeyed_of_reach (r : Reach Init Step s) : AuthoritiesKeyed s := by
  refine r.invariant (I := AuthoritiesKeyed) ?_ ?_
  · rintro s rfl l a h
    cases h
  · intro s e s' _ h hs
    cases hs with
    | call => exact Call.next_keyed h
    | rehash hsame => exact fun l a ha => h l a ((hsame.authorities.get?_eq l).trans ha)

end Keyed

end S4.Managed
