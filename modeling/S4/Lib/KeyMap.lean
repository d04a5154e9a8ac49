import Mathlib

/-!
# Library — KeyMap — finite maps with an iteration order

A map from `K` to `V` is Mathlib's association list `AList` at a constant family, so that no key is
bound twice by construction, together with the operations that `AList` lacks and a program with
hash maps needs: changing one value in place (`modify`), changing every value (`mapValues`),
keeping the entries that pass a test (`retain`), searching (`any`, `findEntry`), and adding up a
weight over all entries (`sumBy`).  Every operation is described by what `get?` returns afterwards.

The order of the entries is the order in which iteration visits them.  `SameEntries m m'` says that
two maps differ in that order only; `get?` and `sumBy` cannot tell them apart.
-/

namespace Lib

open List

/-- Finite maps: an association list in which no key is bound twice. -/
structure KeyMap (K V : Type) where
  table : AList (fun _ : K => V)

namespace KeyMap

variable {K V : Type} {m m' : KeyMap K V} {k k' : K} {v v' : V} {f : V → V} {entries : List (K × V)}
  {p : V → Bool} {w : K → V → Nat}

instance : EmptyCollection (KeyMap K V) := ⟨⟨∅⟩⟩

/-- The entries, in iteration order. -/
def toList (m : KeyMap K V) : List (K × V) := m.table.entries.map fun e => (e.1, e.2)

/-- The values, in iteration order. -/
def values (m : KeyMap K V) : List V := m.toList.map Prod.snd

/-- The keys, in iteration order. -/
def keys (m : KeyMap K V) : List K := m.toList.map Prod.fst

/-- The number of entries. -/
def size (m : KeyMap K V) : Nat := m.toList.length

/-- The same entries, possibly visited in another order. -/
def SameEntries (m m' : KeyMap K V) : Prop := m.table.entries.Perm m'.table.entries

theorem SameEntries.refl (m : KeyMap K V) : SameEntries m m := List.Perm.refl _

theorem keys_nodup (m : KeyMap K V) : m.keys.Nodup := by
  have h : m.keys = m.table.entries.keys := by
    simp only [keys, toList, map_map]
    rfl
  rw [h]
  exact m.table.nodupKeys

section Lookup

variable [DecidableEq K]

def get? (m : KeyMap K V) (k : K) : Option V := m.table.lookup k

def insert (m : KeyMap K V) (k : K) (v : V) : KeyMap K V := ⟨m.table.insert k v⟩

def erase (m : KeyMap K V) (k : K) : KeyMap K V := ⟨m.table.erase k⟩

def contains (m : KeyMap K V) (k : K) : Bool := (m.get? k).isSome

/-- Change the value bound to `k`, if there is one. -/
def modify (m : KeyMap K V) (k : K) (f : V → V) : KeyMap K V :=
  match m.get? k with
  | none => m
  | some v => m.insert k (f v)

@[simp] theorem get?_empty (k : K) : (∅ : KeyMap K V).get? k = none := rfl

theorem get?_insert (m : KeyMap K V) (k k' : K) (v : V) :
    (m.insert k v).get? k' = if k' = k then some v else m.get? k' := by
  by_cases e : k' = k
  · subst e
    rw [if_pos rfl]
    exact AList.lookup_insert m.table
  · rw [if_neg e]
    exact AList.lookup_insert_ne e

/-- Inversion for a lookup after an insertion. -/
theorem get?_insert_cases
    (h : (m.insert k v).get? k' = some v') : k' = k ∧ v = v' ∨ k' ≠ k ∧ m.get? k' = some v' := by
  rw [get?_insert] at h
  split at h
  next e => exact .inl ⟨e, Option.some.inj h⟩
  next e => exact .inr ⟨e, h⟩

@[simp] theorem get?_insert_self (m : KeyMap K V) (k : K) (v : V) :
    (m.insert k v).get? k = some v := AList.lookup_insert m.table

@[simp] theorem get?_insert_ne (m : KeyMap K V) (v : V) (h : k' ≠ k) :
    (m.insert k v).get? k' = m.get? k' := AList.lookup_insert_ne h

theorem get?_erase (m : KeyMap K V) (k k' : K) :
    (m.erase k).get? k' = if k' = k then none else m.get? k' := by
  by_cases e : k' = k
  · subst e
    rw [if_pos rfl]
    exact AList.lookup_erase k' m.table
  · rw [if_neg e]
    exact AList.lookup_erase_ne e

theorem get?_erase_cases (h : (m.erase k).get? k' = some v) : k' ≠ k ∧ m.get? k' = some v := by
  rw [get?_erase] at h
  split at h
  · cases h
  next e => exact ⟨e, h⟩

theorem size_erase_lt (h : m.get? k = some v) : (m.erase k).size < m.size := by
  have hk : k ∈ m.table.entries.keys :=
    mem_keys_of_mem (AList.mem_lookup_iff.mp (Option.mem_def.mpr h))
  obtain ⟨v', l₁, l₂, -, he, hk⟩ := exists_of_kerase hk
  have : (m.erase k).table.entries = l₁ ++ l₂ := hk
  simp only [size, toList, length_map, this]
  rw [he]
  simp

theorem get?_modify (m : KeyMap K V) (k k' : K) (f : V → V) :
    (m.modify k f).get? k' = if k' = k then (m.get? k).map f else m.get? k' := by
  unfold modify
  cases h : m.get? k with
  | none =>
    by_cases e : k' = k
    · subst e
      simp [h]
    · rw [if_neg e]
  | some => rw [get?_insert]; rfl

theorem get?_modify_cases (h : (m.modify k f).get? k' = some v') :
    (k' = k ∧ ∃ v, m.get? k = some v ∧ f v = v') ∨ k' ≠ k ∧ m.get? k' = some v' := by
  rw [get?_modify] at h
  split at h
  next e => exact .inl ⟨e, Option.map_eq_some_iff.mp h⟩
  next e => exact .inr ⟨e, h⟩

/-- Entries that are inserted one after another. -/
def insertAll (m : KeyMap K V) (entries : List (K × V)) : KeyMap K V :=
  entries.foldl (fun m e => m.insert e.1 e.2) m

theorem get?_insertAll_of_notMem
    (h : k ∉ entries.map Prod.fst) : (m.insertAll entries).get? k = m.get? k := by
  induction entries generalizing m with
  | nil => rfl
  | cons e entries ih =>
    rw [map_cons, mem_cons, not_or] at h
    exact (ih h.2).trans (get?_insert_ne m e.2 h.1)

theorem get?_insertAll_of_mem (hn : (entries.map Prod.fst).Nodup) (h : (k, v) ∈ entries) :
    (m.insertAll entries).get? k = some v := by
  induction entries generalizing m with
  | nil => cases h
  | cons e entries ih =>
    rw [map_cons, nodup_cons] at hn
    rcases mem_cons.mp h with rfl | h
    · exact (get?_insertAll_of_notMem hn.1).trans (get?_insert_self m k v)
    · exact ih hn.2 h

theorem mem_toList_iff : (k, v) ∈ m.toList ↔ m.get? k = some v := by
  unfold toList get?
  rw [← Option.mem_def, AList.mem_lookup_iff, mem_map]
  constructor
  · rintro ⟨⟨k', v'⟩, h, e⟩
    cases e
    exact h
  · exact fun h => ⟨⟨k, v⟩, h, rfl⟩

theorem mem_values_iff : v ∈ m.values ↔ ∃ k, m.get? k = some v := by
  simp [values, mem_toList_iff]

theorem SameEntries.get?_eq (h : SameEntries m m') (k : K) :
    m.get? k = m'.get? k := AList.perm_lookup h

/-- Binding a key to the value it has changes the order at most. -/
theorem SameEntries.insert_self (h : m.get? k = some v) : SameEntries m (m.insert k v) := by
  have hmem : (⟨k, v⟩ : (_ : K) × V) ∈ m.table.entries := AList.mem_lookup_iff.mp h
  obtain ⟨v', l₁, l₂, hk, he, hker⟩ := exists_of_kerase (mem_keys_of_mem hmem)
  have hv : v' = v := by
    have hl : m.get? k = some v' := by
      refine AList.mem_lookup_iff.mpr ?_
      rw [he]
      simp
    exact Option.some.inj (hl.symm.trans h)
  subst hv
  have hins : (m.insert k v').table.entries = ⟨k, v'⟩ :: (l₁ ++ l₂) := by
    rw [← hker]
    exact AList.entries_insert ..
  rw [SameEntries, hins, he]
  exact perm_middle

end Lookup

/-! ### Whole-map changes -/

/-- Replace every value `v` bound to `k` by `f k v`. -/
def mapValues (m : KeyMap K V) (f : K → V → V) : KeyMap K V :=
  ⟨⟨m.table.entries.map fun e => ⟨e.1, f e.1 e.2⟩,
    List.NodupKeys.map₂ f _ m.table.nodupKeys⟩⟩

/-- Keep the entries that pass `p`. -/
def retain (m : KeyMap K V) (p : K → V → Bool) : KeyMap K V :=
  ⟨⟨m.table.entries.filter fun e => p e.1 e.2,
    List.NodupKeys.sublist filter_sublist m.table.nodupKeys⟩⟩

/-- Does some value pass `p`? -/
def any (m : KeyMap K V) (p : V → Bool) : Bool := m.values.any p

/-- The first entry, in iteration order, whose value passes `p`. -/
def findEntry (m : KeyMap K V) (p : V → Bool) : Option (K × V) := m.toList.find? fun e => p e.2

section Lookup

variable [DecidableEq K]

@[simp] theorem get?_mapValues (m : KeyMap K V) (f : K → V → V) (k : K) :
    (m.mapValues f).get? k = (m.get? k).map (f k) := by
  unfold get? mapValues AList.lookup
  exact dlookup_map₂ k

omit [DecidableEq K] in
theorem mem_toList_retain {p : K → V → Bool} :
    (k, v) ∈ (m.retain p).toList ↔ (k, v) ∈ m.toList ∧ p k v = true := by
  simp only [toList, retain, mem_map, mem_filter]
  constructor
  · rintro ⟨⟨k', v'⟩, ⟨h, hp⟩, e⟩
    cases e
    exact ⟨⟨_, h, rfl⟩, hp⟩
  · rintro ⟨⟨⟨k', v'⟩, h, e⟩, hp⟩
    cases e
    exact ⟨_, ⟨h, hp⟩, rfl⟩

@[simp] theorem get?_retain (m : KeyMap K V) (p : K → V → Bool) (k : K) :
    (m.retain p).get? k = (m.get? k).filter (p k) := by
  ext v
  rw [← mem_toList_iff, mem_toList_retain, mem_toList_iff, Option.filter_eq_some_iff]

theorem any_eq_true_iff : m.any p = true ↔ ∃ k v, m.get? k = some v ∧ p v = true := by
  simp only [any, any_eq_true, mem_values_iff]
  constructor
  · rintro ⟨v, ⟨k, h⟩, hp⟩
    exact ⟨k, v, h, hp⟩
  · rintro ⟨k, v, h, hp⟩
    exact ⟨v, ⟨k, h⟩, hp⟩

theorem any_eq_false_iff : m.any p = false ↔ ∀ k v, m.get? k = some v → p v = false := by
  rw [← Bool.not_eq_true, any_eq_true_iff]
  simp

theorem findEntry_some (h : m.findEntry p = some (k, v)) : m.get? k = some v ∧ p v = true :=
  ⟨mem_toList_iff.mp (mem_of_find?_eq_some h),
    find?_some (p := fun e : K × V => p e.2) h⟩

theorem findEntry_none (h : m.findEntry p = none) (hk : m.get? k = some v) : p v = false := by
  have := find?_eq_none.mp h (k, v) (mem_toList_iff.mpr hk)
  simpa using this

end Lookup

/-! ### Adding up a weight -/

/-- The sum of `w k v` over all entries. -/
def sumBy (m : KeyMap K V) (w : K → V → Nat) : Nat :=
  (m.table.entries.map fun e => w e.1 e.2).sum

theorem SameEntries.sumBy_eq (h : SameEntries m m') (w : K → V → Nat) : m.sumBy w = m'.sumBy w :=
  List.Perm.sum_eq (List.Perm.map (fun e : (_ : K) × V => w e.1 e.2) h)

/-- A weight that does not look at the key is added up over the values. -/
theorem sumBy_eq_sum_values (m : KeyMap K V) (w : V → Nat) :
    m.sumBy (fun _ => w) = (m.values.map w).sum := by
  rw [sumBy, values, toList, map_map, map_map]
  rfl

theorem sumBy_mapValues (m : KeyMap K V) (f : K → V → V) (w : K → V → Nat) :
    (m.mapValues f).sumBy w = m.sumBy fun k v => w k (f k v) := by
  simp only [sumBy, mapValues, map_map]
  rfl

/-- Dropping entries of weight zero changes no sum. -/
theorem sumBy_retain (m : KeyMap K V) {p : K → V → Bool}
    (h : ∀ k v, p k v = false → w k v = 0) : (m.retain p).sumBy w = m.sumBy w := by
  change (((m.table.entries).filter fun e => p e.1 e.2).map fun e => w e.1 e.2).sum = _
  unfold sumBy
  induction m.table.entries with
  | nil => rfl
  | cons e l ih =>
    cases hp : p e.1 e.2 with
    | true => simp [hp, ih]
    | false => simp [hp, ih, h _ _ hp]

section Lookup

variable [DecidableEq K]

theorem sumBy_eq_zero (h : ∀ k v, m.get? k = some v → w k v = 0) : m.sumBy w = 0 := by
  refine sum_eq_zero fun n hn => ?_
  obtain ⟨⟨k, v⟩, he, rfl⟩ := mem_map.mp hn
  exact h k v (AList.mem_lookup_iff.mpr he)

private theorem sum_kerase (w : K → V → Nat) (k : K) (l : List ((_ : K) × V)) :
    ((l.kerase k).map fun e => w e.1 e.2).sum + ((l.dlookup k).elim 0 (w k)) =
      (l.map fun e => w e.1 e.2).sum := by
  induction l with
  | nil => rfl
  | cons e =>
    obtain ⟨k', v⟩ := e
    by_cases e : k = k'
    · subst e
      simp [Nat.add_comm]
    · rw [kerase_cons_ne e, dlookup_cons_ne _ _ e]
      simp only [map_cons, sum_cons]
      omega

/-- **An insertion trades the old weight of the key for the new one.** -/
theorem sumBy_insert (m : KeyMap K V) (k : K) (v : V) (w : K → V → Nat) :
    (m.insert k v).sumBy w + (m.get? k).elim 0 (w k) = m.sumBy w + w k v := by
  have h := sum_kerase w k m.table.entries
  have e : (m.insert k v).sumBy w =
      w k v + ((m.table.entries.kerase k).map fun e => w e.1 e.2).sum := by
    simp [sumBy, insert, AList.entries_insert]
  rw [e, sumBy, ← h, get?, AList.lookup]
  omega

theorem sumBy_erase (m : KeyMap K V) (k : K) (w : K → V → Nat) :
    (m.erase k).sumBy w + (m.get? k).elim 0 (w k) = m.sumBy w :=
  sum_kerase w k m.table.entries

theorem sumBy_modify (h : m.get? k = some v) (f : V → V)
    (w : K → V → Nat) : (m.modify k f).sumBy w + w k v = m.sumBy w + w k (f v) := by
  have hi := m.sumBy_insert k (f v) w
  simpa only [modify, h, Option.elim_some] using hi

/-- A change that keeps the weight of the key keeps the sum. -/
theorem sumBy_modify_of_eq
    (h : ∀ v, m.get? k = some v → w k (f v) = w k v) : (m.modify k f).sumBy w = m.sumBy w := by
  cases hk : m.get? k with
  | none => simp [modify, hk]
  | some v =>
    have hm := sumBy_modify hk f w
    rw [h v hk] at hm
    exact Nat.add_right_cancel hm

theorem sumBy_eq_sum_keys (m : KeyMap K V) (w : K → V → Nat) :
    m.sumBy w = ∑ k ∈ m.keys.toFinset, (m.get? k).elim 0 (w k) := by
  rw [sum_toFinset _ m.keys_nodup, sumBy, keys, toList, map_map, map_map]
  refine congrArg sum (map_congr_left fun e he => ?_)
  have hget : m.get? e.1 = some e.2 := AList.mem_lookup_iff.mpr he
  simp [hget]

/-- A map whose entries are entries of another, with a weight no larger, has a sum no larger. -/
theorem sumBy_le_sumBy (h : ∀ k v', m'.get? k = some v' → ∃ v, m.get? k = some v ∧ w k v' ≤ w k v) :
    m'.sumBy w ≤ m.sumBy w := by
  have hkeys : m'.keys.toFinset ⊆ m.keys.toFinset := by
    intro k hk
    obtain ⟨e, he, rfl⟩ := mem_map.mp (mem_toFinset.mp hk)
    obtain ⟨v, hv, -⟩ := h e.1 e.2 (mem_toList_iff.mp he)
    exact mem_toFinset.mpr (mem_map.mpr ⟨_, mem_toList_iff.mpr hv, rfl⟩)
  rw [sumBy_eq_sum_keys, sumBy_eq_sum_keys]
  calc ∑ k ∈ m'.keys.toFinset, (m'.get? k).elim 0 (w k)
      ≤ ∑ k ∈ m'.keys.toFinset, (m.get? k).elim 0 (w k) := by
        refine Finset.sum_le_sum fun k _ => ?_
        cases hk : m'.get? k with
        | none => exact Nat.zero_le _
        | some v' =>
          obtain ⟨v, hv, hw⟩ := h k v' hk
          rw [hv]
          exact hw
    _ ≤ ∑ k ∈ m.keys.toFinset, (m.get? k).elim 0 (w k) :=
        Finset.sum_le_sum_of_subset hkeys

end Lookup

end KeyMap

end Lib
