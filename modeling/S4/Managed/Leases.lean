import S4.Lib.Leases
import S4.Managed.Frames

/-!
# Managed — Leases

A worker holds a repair, and a writer a physical write intent, under a lease token.  The claim of an
expired lease gives the row a new token, and from then on the calls that carry the old one fail:
renew, complete and fail for a repair, renew, commit, abort and block for a write intent.

The history of a run lists the leases it has issued (`LeaseHistory`, ghost state beside the
repository).  Tokens are drawn fresh, which is the one condition on a step (`LeaseStep`); the clock
and every other identifier are arbitrary.  The invariant (`Fenced`) is that a leased repair row and
a write intent are held under the token last issued for them: a call changes the token of a row only
by issuing it (`Call.next_leases`, `Call.next_tokens`).
-/

namespace S4.Managed

open Lib List KeyMap LeaseLog

/-! ### The leases that a call issues -/

/-- The rows that a claim leases, with the records that it hands out. -/
def MemoryState.claims (s : MemoryState) (env : CallEnv) (owner : String) (leaseUntilMs : Int)
    (limit : Nat) : List (Uuid × RepairRecord) :=
  let candidates := (s.repairs.toList.filter fun row => s.claimable env.now row.2).insertionSort
    fun a b => a.2.1.updatedAtMs ≤ b.2.1.updatedAtMs
  (candidates.take limit).zipIdx.map fun row =>
    (row.1.1, row.1.2.1.lease (env.uuid row.2) owner leaseUntilMs env.now)

theorem claimRepairs_eq (env : CallEnv) (s : MemoryState) (owner : String) (leaseUntilMs : Int)
    (limit : Nat) :
    claimRepairs env s owner leaseUntilMs limit =
      (.ok ((s.claims env owner leaseUntilMs limit).map Prod.snd), { s with
        repairs := s.repairs.insertAll
          ((s.claims env owner leaseUntilMs limit).map fun c => (c.1, c.2, .leased)) }) := by
  simp only [claimRepairs, MemoryState.claims, insertAll, foldl_map]

section Issued

variable [Sha256] (env : CallEnv) (s : MemoryState)

/-- The repair leases that a call issues: repair and token. -/
def Call.repairLeases : Call → List (Uuid × Uuid)
  | .claimRepairs owner deadline limit =>
    (s.claims env owner deadline limit).map fun c => (c.1, c.2.id)
  | _ => []

/-- The write leases that a call issues: intent and token. -/
def Call.writeLeases : Call → List (Uuid × Uuid)
  | .beginPhysicalWrite intent =>
    match (Managed.beginPhysicalWrite env s intent).1 with
    | .ok lease => [(lease.intentId, lease.token)]
    | .error _ => []
  | .claimExpiredPhysicalWriteIntent id owner deadline =>
    match (Managed.claimExpiredPhysicalWriteIntent env s id owner deadline).1 with
    | .ok (some lease) => [(lease.intentId, lease.token)]
    | _ => []
  | _ => []

end Issued

/-- The token that a call on a leased repair carries. -/
def Call.repairToken : Call → Option Uuid
  | .renewRepair token _ => some token
  | .failRepair token => some token
  | .completeRepair repair => repair.leaseToken
  | _ => none

/-- The lease that a call on a write intent carries. -/
def Call.writeLease : Call → Option PhysicalWriteLease
  | .renewPhysicalWriteIntent lease _ => some lease
  | .commitPhysicalWrite lease _ _ => some lease
  | .abortPhysicalWrite lease => some lease
  | .blockPhysicalWrite lease _ => some lease
  | _ => none

/-! ### Leased rows -/

/-- The row `k` is leased under the token `t`. -/
def LeasedUnder (rows : Rows) (k t : Uuid) : Prop :=
  ∃ r, rows.get? k = some (r, .leased) ∧ r.leaseToken = some t

/-- No row has been leased anew: every leased row was leased before, under the same token and for
the same object. -/
def LeasesFollow (rows rows' : Rows) : Prop :=
  ∀ k r', rows'.get? k = some (r', .leased) →
    ∃ r, rows.get? k = some (r, .leased) ∧ r'.leaseToken = r.leaseToken ∧ r'.logical = r.logical

variable {k t : Uuid} {c : Call} {repairs : List RepairRecord}

namespace LeasesFollow

variable {rows rows₁ rows' : Rows}

theorem refl (rows : Rows) : LeasesFollow rows rows := fun _ r h => ⟨r, h, rfl, rfl⟩

theorem of_eq (h : rows' = rows) : LeasesFollow rows rows' := by
  rw [h]
  exact refl rows

theorem trans (h : LeasesFollow rows rows₁) (h' : LeasesFollow rows₁ rows') :
    LeasesFollow rows rows' := by
  intro k r₂ hk
  obtain ⟨r₁, hk, ht₁, hl₁⟩ := h' k r₂ hk
  obtain ⟨r, hk, ht, hl⟩ := h k r₁ hk
  exact ⟨r, hk, ht₁.trans ht, hl₁.trans hl⟩

theorem leasedUnder (h : LeasesFollow rows rows') (hl : LeasedUnder rows' k t) :
    LeasedUnder rows k t := by
  obtain ⟨r', hk, ht⟩ := hl
  obtain ⟨r, hk, ht', -⟩ := h k r' hk
  exact ⟨r, hk, ht'.symm.trans ht⟩

theorem insert (h : LeasesFollow rows rows') {r : RepairRecord × RepairStatus}
    (hr : r.2 = .leased → ∃ old, rows.get? k = some (old, .leased) ∧
      r.1.leaseToken = old.leaseToken ∧ r.1.logical = old.logical) :
    LeasesFollow rows (rows'.insert k r) := by
  intro k' r' hk
  obtain ⟨rfl, rfl⟩ | ⟨-, hk⟩ := get?_insert_cases hk
  · exact hr rfl
  · exact h k' r' hk

theorem retain (rows : Rows) (p : Uuid → RepairRecord × RepairStatus → Bool) :
    LeasesFollow rows (rows.retain p) := by
  intro k r hk
  rw [get?_retain] at hk
  exact ⟨r, (Option.filter_eq_some_iff.mp hk).1, rfl, rfl⟩

theorem foldl {α : Type} {f : MemoryState → α → MemoryState}
    (h : ∀ s a, LeasesFollow s.repairs (f s a).repairs) (l : List α) (s : MemoryState) :
    LeasesFollow s.repairs (l.foldl f s).repairs := by
  induction l generalizing s with
  | nil => exact refl _
  | cons a l ih => exact (h s a).trans (ih _)

end LeasesFollow

/-! ### A call leases a row only by a claim -/

section Rows

variable {now : Int} {epoch : Nat} {s s' : MemoryState} {repair : RepairRecord}

theorem insertMemoryRepair_leases :
    LeasesFollow s.repairs (insertMemoryRepair now s repair).repairs := by
  obtain ⟨k, existing, -, -, e⟩ | ⟨k, r, -, -, -, e⟩ | ⟨-, e⟩ :=
    insertMemoryRepair_cases now s repair
  · rw [e]
    exact (LeasesFollow.refl _).insert (by simp)
  · exact .of_eq e
  · rw [e]
    exact (LeasesFollow.refl _).insert (by simp)

theorem insertWaiting_leases :
    LeasesFollow s.repairs (insertMemoryWaitingPlacementCleanup s repair).repairs := by
  obtain e | ⟨-, e⟩ := insertWaiting_cases s repair
  · exact .of_eq e
  · rw [e]
    exact (LeasesFollow.refl _).insert (by simp)

theorem insertRepairs_leases : LeasesFollow s.repairs (insertRepairs now epoch s repairs).repairs :=
  .foldl (fun _ _ => insertMemoryRepair_leases) repairs s

theorem insertLedgeredRepairs_leases :
    LeasesFollow s.repairs (insertLedgeredRepairs now epoch s repairs).repairs := by
  refine .foldl (fun s repair => ?_) repairs s
  simp only [insertLedgeredRepair]
  split
  · exact insertMemoryRepair_leases
  · exact .refl _

theorem parkCleanups_leases {cleanups : List RepairRecord} :
    LeasesFollow s.repairs (s.parkCleanups repair cleanups).repairs :=
  .foldl (fun _ _ => insertWaiting_leases) cleanups s

theorem activateCleanups_leases : LeasesFollow s.repairs (s.activateCleanups repair).repairs := by
  intro k r' hk
  obtain ⟨⟨r, status⟩, hr, he, hst | ⟨-, hst⟩⟩ := activateCleanups_row hk
  · cases he
    cases hst
    exact ⟨r', hr, rfl, rfl⟩
  · cases hst

variable [Sha256] {env : CallEnv}

theorem Installs.leases {authority : ObjectAuthority} (h : Installs env epoch authority s s') :
    LeasesFollow s.repairs s'.repairs := by
  rw [h.repairs]
  simp only [MemoryState.replaceAuthority, MemoryState.cleanupReplaced]
  have hp : LeasesFollow s.repairs (insertRepairs env.now epoch (s.setAuthority authority)
      (publicationRepairs env 0 authority)).repairs := insertRepairs_leases
  split
  · exact hp
  split
  · exact hp
  · exact hp.trans insertLedgeredRepairs_leases

theorem applyRepair_leases : LeasesFollow s.repairs (s.applyRepair env repair).2.repairs := by
  simp only [MemoryState.applyRepair]
  split
  · exact .refl _
  split
  · exact .refl _
  · exact .refl _
  · split
    · dsimp only
      split
      · refine LeasesFollow.trans ?_ activateCleanups_leases
        exact parkCleanups_leases
      · exact parkCleanups_leases
    · exact .refl _

theorem completeRepair_leases : LeasesFollow s.repairs (completeRepair env s repair).2.repairs := by
  simp only [completeRepair]
  repeat' split
  all_goals first
    | exact .refl _
    | exact ((LeasesFollow.refl _).insert (by simp)).trans applyRepair_leases

/-- Only a claim leases a row. -/
theorem Call.next_leases (hc : ∀ owner deadline limit, c ≠ .claimRepairs owner deadline limit) :
    LeasesFollow s.repairs (c.next env s).repairs := by
  by_cases ho : c.touchesObjects = false
  · exact .of_eq (c.next_objects env s ho).repairs
  by_cases hi : c.installing = true
  · obtain h | ⟨_, _, _, -, -, h⟩ := c.next_installs env s hi
    · exact .of_eq h.repairs
    · exact h.leases
  have hpurge := c.next_purge env s
  cases c with
  | claimRepairs owner deadline limit => exact absurd rfl (hc owner deadline limit)
  | proveLogicalAbort id error physical =>
    obtain ⟨e, -⟩ | ⟨_, _, _, -, -, -, -, h | ⟨a, epoch, -, h⟩⟩ :=
      proveLogicalAbort_cases env s id error physical
    · exact .of_eq (congrArg _ e)
    · exact .of_eq h
    · rw [Call.next, runCall, Outcome.unit, h]
      exact insertLedgeredRepairs_leases
  | advancePlacementVersion logical cas placement =>
    obtain e | ⟨a, -, e⟩ := advancePlacementVersion_cases env s logical cas placement
    · exact .of_eq (congrArg _ e)
    · rw [Call.next, runCall, Outcome.unit, e]
      exact .refl _
  | enqueue repair =>
    obtain e | ⟨-, -, epoch, e⟩ := enqueue_cases env s repair
    · exact .of_eq (congrArg _ e)
    · rw [Call.next, runCall, Outcome.unit, e]
      exact insertMemoryRepair_leases
  | renewRepair token =>
    simp only [Call.next, runCall, Managed.renewRepair]
    split
    · exact .refl _
    · next k repair hl =>
      -- the lease keeps its token
      exact (LeasesFollow.refl _).insert fun _ => ⟨repair, leasedRow_some s hl, rfl, rfl⟩
  | failRepair =>
    simp only [Call.next, runCall, Managed.failRepair]
    split
    · exact .refl _
    refine (LeasesFollow.refl _).insert ?_
    intro hl
    split at hl <;> cases hl
  | completeRepair => exact completeRepair_leases
  | purgeNamespace | namespacePurgeStatus =>
    obtain ⟨h, -⟩ | ⟨tenant, h⟩ := hpurge rfl
    · exact .of_eq h.repairs
    · rw [h.repairs]
      exact .retain _ _
  | publish | tombstone | commitLogicalPut | commitLogicalDelete => exact absurd rfl hi
  | _ => exact absurd rfl ho

end Rows

/-! ### The tokens of a claim -/

section Claims

variable {env : CallEnv} {s : MemoryState} {owner : String} {deadline : Int} {limit : Nat}

theorem claims_keys_nodup : ((s.claims env owner deadline limit).map Prod.fst).Nodup := by
  simp only [MemoryState.claims, map_map]
  have hfst : ∀ l : List (Uuid × RepairRecord × RepairStatus),
      l.zipIdx.map (fun row => row.1.1) = l.map Prod.fst := by
    intro l
    calc l.zipIdx.map (fun row => row.1.1) = (l.zipIdx.map Prod.fst).map Prod.fst := by
          rw [map_map]
          rfl
      _ = l.map Prod.fst := by rw [zipIdx_map_fst]
  refine (hfst _) ▸ ?_
  refine ((take_sublist _ _).map _).nodup ?_
  refine ((perm_insertionSort _ _).map _).nodup_iff.mpr ?_
  exact (filter_sublist.map _).nodup s.repairs.keys_nodup

theorem claims_tokens_nodup (hi : Function.Injective env.uuid) :
    ((s.claims env owner deadline limit).map fun c => c.2.id).Nodup := by
  simp only [MemoryState.claims, map_map]
  have hsnd : ∀ l : List (Uuid × RepairRecord × RepairStatus),
      l.zipIdx.map (fun row => env.uuid row.2) = (range' 0 l.length).map env.uuid := by
    intro l
    calc l.zipIdx.map (fun row => env.uuid row.2) = (l.zipIdx.map Prod.snd).map env.uuid := by
          rw [map_map]
          rfl
      _ = (range' 0 l.length).map env.uuid := by rw [zipIdx_map_snd]
  exact (hsnd _) ▸ (nodup_range' 1).map hi

theorem claims_token {repair : RepairRecord} (h : (k, repair) ∈ s.claims env owner deadline limit) :
    repair.leaseToken = some repair.id ∧ ∃ n, repair.id = env.uuid n := by
  obtain ⟨⟨row, n⟩, -, e⟩ := mem_map.mp h
  cases e
  exact ⟨rfl, n, rfl⟩

/-- A claim leases the rows that it hands out, and leaves the others alone. -/
theorem claimRepairs_row (k : Uuid) :
    (∃ repair, (k, repair) ∈ s.claims env owner deadline limit ∧
      (claimRepairs env s owner deadline limit).2.repairs.get? k = some (repair, .leased)) ∨
    (k ∉ (s.claims env owner deadline limit).map Prod.fst ∧
      (claimRepairs env s owner deadline limit).2.repairs.get? k = s.repairs.get? k) := by
  have hkeys : ((s.claims env owner deadline limit).map
      fun c => (c.1, c.2, RepairStatus.leased)).map Prod.fst =
      (s.claims env owner deadline limit).map Prod.fst := by
    simp
  simp only [claimRepairs_eq]
  by_cases hm : k ∈ (s.claims env owner deadline limit).map Prod.fst
  · obtain ⟨⟨k', repair⟩, hc, rfl⟩ := mem_map.mp hm
    have hmem : (k', repair, RepairStatus.leased) ∈
        (s.claims env owner deadline limit).map fun c => (c.1, c.2, RepairStatus.leased) :=
      mem_map.mpr ⟨(k', repair), hc, rfl⟩
    exact .inl ⟨repair, hc, get?_insertAll_of_mem (hkeys ▸ claims_keys_nodup) hmem⟩
  · exact .inr ⟨hm, get?_insertAll_of_notMem (hkeys ▸ hm)⟩

end Claims

/-! ### The tokens of the write intents -/

section Tokens

variable [Sha256] (env : CallEnv) (s : MemoryState)

omit [Sha256] in
variable {s} in
theorem tokens_dropIntent {id id' : Uuid}
    (h : (s.dropIntent id').physicalWriteTokens.get? id = some t) :
    s.physicalWriteTokens.get? id = some t :=
  (get?_erase_cases h).2

/-- **A call changes the token of an intent only by issuing it.** -/
theorem Call.next_tokens (c : Call) :
    (c.writeLeases env s = [] ∧ ∀ id t, (c.next env s).physicalWriteTokens.get? id = some t →
      s.physicalWriteTokens.get? id = some t) ∨
    ∃ id t, c.writeLeases env s = [(id, t)] ∧
      (t = env.uuid 0 ∨ s.physicalWriteTokens.get? id = some t) ∧
      ∀ id', (c.next env s).physicalWriteTokens.get? id' =
        if id' = id then some t else s.physicalWriteTokens.get? id' := by
  by_cases hw : c.onWrites = false
  · refine .inl ⟨?_, fun id t ht => ?_⟩
    · cases c with
      | beginPhysicalWrite | claimExpiredPhysicalWriteIntent => cases hw
      | _ => rfl
    · rwa [(c.next_writes env s hw).tokens] at ht
  cases c with
  | beginPhysicalWrite intent =>
    simp only [Call.next, runCall, Outcome.unit, Call.writeLeases]
    obtain ⟨e, h⟩ | ⟨-, token, -, ht, h⟩ | ⟨-, -, h⟩ := beginPhysicalWrite_cases env s intent
    · rw [h]
      exact .inl ⟨rfl, fun _ _ h => h⟩
    · rw [h]
      refine .inr ⟨_, _, rfl, .inr ht, fun id' => ?_⟩
      split
      · next e => rw [e, ht]
      · rfl
    · rw [h]
      exact .inr ⟨_, _, rfl, .inl rfl, fun id' => get?_insert ..⟩
  | claimExpiredPhysicalWriteIntent id owner deadline =>
    simp only [Call.next, runCall, Outcome.unit, Call.writeLeases]
    obtain ⟨h, hn⟩ | ⟨epoch, intent, -, -, h⟩ :=
      claimExpiredPhysicalWriteIntent_cases env s id owner deadline
    · refine .inl ⟨?_, fun _ _ ht => by rwa [h] at ht⟩
      split
      · next lease hl => exact absurd hl (hn lease)
      · rfl
    · rw [h]
      exact .inr ⟨_, _, rfl, .inl rfl, fun id' => get?_insert ..⟩
  | renewPhysicalWriteIntent | blockPhysicalWrite =>
    refine .inl ⟨rfl, fun id t ht => ?_⟩
    simp only [Call.next, runCall, Managed.renewPhysicalWriteIntent,
      Managed.blockPhysicalWrite] at ht
    split at ht <;> exact ht
  | commitPhysicalWrite =>
    refine .inl ⟨rfl, fun id t ht => ?_⟩
    simp only [Call.next, runCall, Managed.commitPhysicalWrite] at ht
    repeat' split at ht
    all_goals first | exact ht | exact tokens_dropIntent ht
  | abortPhysicalWrite =>
    refine .inl ⟨rfl, fun id t ht => ?_⟩
    simp only [Call.next, runCall, Managed.abortPhysicalWrite] at ht
    split at ht
    · exact ht
    · exact tokens_dropIntent ht
  | _ => exact absurd rfl hw

end Tokens

/-! ### Histories -/

/-- The repository, with the leases that the run has issued, the newest first. -/
structure LeaseHistory where
  state : MemoryState
  repairs : List (Uuid × Uuid)
  writes : List (Uuid × Uuid)

/-- The identifiers of a call are distinct, and none of them is a token already issued. -/
structure CallEnv.NewTokens (env : CallEnv) (h : LeaseHistory) : Prop where
  injective : Function.Injective env.uuid
  repairs : ∀ k n, (k, env.uuid n) ∉ h.repairs
  writes : ∀ id n, (id, env.uuid n) ∉ h.writes

section Histories

variable [Sha256] {h : LeaseHistory} {env : CallEnv} {s : MemoryState}

/-- The history after a call. -/
def LeaseHistory.next (h : LeaseHistory) (env : CallEnv) (c : Call) : LeaseHistory where
  state := c.next env h.state
  repairs := c.repairLeases env h.state ++ h.repairs
  writes := c.writeLeases env h.state ++ h.writes

/-- Calls at any time that draw new tokens. -/
inductive LeaseStep : LeaseHistory → Event → LeaseHistory → Prop where
  | call {h : LeaseHistory} {env : CallEnv} {c : Call} (hn : env.NewTokens h) :
      LeaseStep h (.call env c) (h.next env c)
  | rehash {h : LeaseHistory} {s' : MemoryState} (hs : SameContents h.state s') :
      LeaseStep h .rehash { h with state := s' }

/-- The repository starts empty. -/
def LeaseInit (h : LeaseHistory) : Prop := h = ⟨.new, [], []⟩

/-- Every leased repair and every write intent is held under the token last issued for it. -/
structure Fenced (h : LeaseHistory) : Prop where
  repairs : LeaseLog.Wf h.repairs
  writes : LeaseLog.Wf h.writes
  leased : ∀ k t, LeasedUnder h.state.repairs k t → current k h.repairs = some t
  held : ∀ id t, h.state.physicalWriteTokens.get? id = some t →
    current id h.writes = some t

theorem Fenced.next_repairs (hf : Fenced h) (hn : env.NewTokens h) {c : Call} :
    LeaseLog.Wf (h.next env c).repairs ∧ ∀ k t, LeasedUnder (h.next env c).state.repairs k t →
      current k (h.next env c).repairs = some t := by
  by_cases hc : ∀ owner deadline limit, c ≠ .claimRepairs owner deadline limit
  · have hnil : c.repairLeases env h.state = [] := by
      cases c with
      | claimRepairs owner deadline limit => exact absurd rfl (hc owner deadline limit)
      | _ => rfl
    simp only [LeaseHistory.next, hnil, nil_append]
    exact ⟨hf.repairs, fun k t hl => hf.leased k t ((Call.next_leases hc).leasedUnder hl)⟩
  · simp only [not_forall, not_not] at hc
    obtain ⟨owner, deadline, limit, rfl⟩ := hc
    have hfst : (Call.repairLeases env h.state (.claimRepairs owner deadline limit)).map Prod.fst =
        (h.state.claims env owner deadline limit).map Prod.fst := by
      simp [Call.repairLeases]
    have hsnd : (Call.repairLeases env h.state (.claimRepairs owner deadline limit)).map Prod.snd =
        (h.state.claims env owner deadline limit).map fun c => c.2.id := by
      simp [Call.repairLeases]
    refine ⟨hf.repairs.issueAll (hsnd ▸ claims_tokens_nodup hn.injective) ?_, ?_⟩
    · intro k t hm ht
      rw [hsnd] at ht
      obtain ⟨⟨k', repair⟩, hc, rfl⟩ := mem_map.mp ht
      obtain ⟨n, e⟩ := (claims_token hc).2
      rw [e] at hm
      exact hn.repairs k n hm
    · rintro k t ⟨r, hr, ht⟩
      simp only [LeaseHistory.next, Call.next] at hr
      rcases claimRepairs_row k with ⟨repair, hc, hrow⟩ | ⟨hk, hrow⟩
      · cases hr.symm.trans hrow
        cases ht.symm.trans (claims_token hc).1
        exact current_append_of_mem (hfst ▸ claims_keys_nodup)
          (mem_map.mpr ⟨_, hc, rfl⟩)
      · exact (current_append_of_notMem (hfst ▸ hk)).trans
          (hf.leased k t ⟨r, hrow ▸ hr, ht⟩)

theorem Fenced.next_writes (hf : Fenced h) (hn : env.NewTokens h) (c : Call) :
    LeaseLog.Wf (h.next env c).writes ∧
      ∀ id t, (h.next env c).state.physicalWriteTokens.get? id = some t →
        current id (h.next env c).writes = some t := by
  simp only [LeaseHistory.next]
  obtain ⟨hnil, ht⟩ | ⟨id, t, hl, ht, hnext⟩ := c.next_tokens env h.state
  · rw [hnil]
    exact ⟨hf.writes, fun id t h => hf.held id t (ht id t h)⟩
  · rw [hl]
    refine ⟨?_, fun id' t' h' => ?_⟩
    · rcases ht with rfl | ht
      · exact hf.writes.issue fun id' => hn.writes id' 0
      · exact hf.writes.reissue (hf.held id t ht)
    · rw [hnext] at h'
      by_cases e : id' = id
      · rw [if_pos e] at h'
        cases h'
        simp [current, e]
      · rw [if_neg e] at h'
        simpa [current, Ne.symm e] using hf.held id' t' h'

theorem fenced_of_reach (r : Reach LeaseInit LeaseStep h) : Fenced h := by
  refine r.invariant ?_ ?_
  · rintro h rfl
    refine ⟨.nil, .nil, ?_, ?_⟩
    · rintro k t ⟨r, hk, -⟩
      cases hk
    · intro id t ht
      cases ht
  · rintro h e h' - hf hs
    cases hs with
    | @call env c hn =>
      obtain ⟨hw, hl⟩ := hf.next_repairs hn
      obtain ⟨hw', hh⟩ := hf.next_writes hn c
      exact ⟨hw, hw', hl, hh⟩
    | @rehash s' hs =>
      refine ⟨hf.repairs, hf.writes, ?_, ?_⟩
      · rintro k t ⟨r, hk, ht⟩
        exact hf.leased k t ⟨r, (hs.repairs.get?_eq k).trans hk, ht⟩
      · intro id t ht
        exact hf.held id t ((hs.physicalWriteTokens.get?_eq id).trans ht)

/-! ### Calls under a token -/

omit [Sha256] in
theorem leasedUnder_of_leasedRow {now : Int} {token : Uuid}
    {repair : RepairRecord} (h : s.leasedRow now token = some (k, repair)) :
    LeasedUnder s.repairs k token := by
  refine ⟨repair, leasedRow_some s h, ?_⟩
  simp only [MemoryState.leasedRow] at h
  split at h
  · cases h
  · next hf =>
    split at h
    · cases h
    · cases h
      exact eq_of_beq (findEntry_some hf).2

/-- The repair that a call on a leased repair is about. -/
def Call.repair (env : CallEnv) (s : MemoryState) : Call → Option Uuid
  | .renewRepair token _ => (s.leasedRow env.now token).map Prod.fst
  | .failRepair token => (s.leasedRow env.now token).map Prod.fst
  | .completeRepair repair => some repair.repairId
  | _ => none

/-- A call on a repair succeeds only under the token of the leased row. -/
theorem Call.repair_of_ok (hc : c.repairToken = some t) (hok : c.result env s = .ok ()) :
    ∃ k, c.repair env s = some k ∧ LeasedUnder s.repairs k t := by
  cases c with
  | renewRepair | failRepair =>
    cases hc
    simp only [Call.result, runCall, Managed.renewRepair, Managed.failRepair] at hok
    split at hok
    · cases hok
    · next k repair hl => exact ⟨k, by simp [Call.repair, hl], leasedUnder_of_leasedRow hl⟩
  | completeRepair repair =>
    refine ⟨repair.repairId, rfl, ?_⟩
    simp only [Call.result, runCall, Managed.completeRepair] at hok
    split at hok
    · cases hok
    next hid =>
    split at hok
    · cases hok
    split at hok
    · cases hok
    next stored status hrow =>
    split at hok
    · cases hok
    next hheld =>
    simp only [not_or, not_not] at hid hheld
    rw [hheld.1] at hrow
    rw [Call.repairToken, hid] at hc
    exact ⟨stored, hrow, hheld.2.1.trans hc⟩
  | _ => cases hc

/-- A call on a write intent succeeds only under the token of the intent. -/
theorem Call.writeToken_of_ok {lease : PhysicalWriteLease}
    (hc : c.writeLease = some lease) (hok : c.result env s = .ok ()) :
    s.physicalWriteTokens.get? lease.intentId = some lease.token := by
  have hheld : s.leaseHeld env.now lease = true := by
    cases c with
    | renewPhysicalWriteIntent =>
      cases hc
      simp only [Call.result, runCall, Managed.renewPhysicalWriteIntent] at hok
      split at hok
      · cases hok
      · next h => simp at h; exact h.2
    | commitPhysicalWrite =>
      cases hc
      simp only [Call.result, runCall, Managed.commitPhysicalWrite] at hok
      split at hok
      · cases hok
      split at hok
      · cases hok
      · next h => simpa using h
    | abortPhysicalWrite | blockPhysicalWrite =>
      cases hc
      simp only [Call.result, runCall, Managed.abortPhysicalWrite,
        Managed.blockPhysicalWrite] at hok
      split at hok
      · cases hok
      · next h => simpa using h
    | _ => cases hc
  simp only [MemoryState.leaseHeld, Bool.and_eq_true, beq_iff_eq] at hheld
  exact hheld.1.1

/-- Some call that carries the token `t` would succeed for the repair `k`. -/
def MemoryState.ServesRepair (s : MemoryState) (k t : Uuid) : Prop :=
  ∃ (env : CallEnv) (c : Call),
    c.repairToken = some t ∧ c.repair env s = some k ∧ c.result env s = .ok ()

/-- Some call with a lease of the intent `id` under the token `t` would succeed. -/
def MemoryState.ServesWrite (s : MemoryState) (id t : Uuid) : Prop :=
  ∃ (env : CallEnv) (c : Call) (lease : PhysicalWriteLease), c.writeLease = some lease ∧
    lease.intentId = id ∧ lease.token = t ∧ c.result env s = .ok ()

/-- **Lease fencing.**  Once a repair or a write intent has been leased under a new token, no call
that carries an earlier one returns `Ok`; and at any moment at most one token can make a call on a
repair, or on an intent, succeed. -/
theorem superseded_leases_fail (r : Reach LeaseInit LeaseStep h) :
    (∀ k t, LeaseLog.Superseded k t h.repairs → ∀ (env : CallEnv) (c : Call),
      c.repairToken = some t → c.result env h.state ≠ .ok ()) ∧
    (∀ id t, LeaseLog.Superseded id t h.writes → ¬ h.state.ServesWrite id t) ∧
    (∀ k t₁ t₂, h.state.ServesRepair k t₁ → h.state.ServesRepair k t₂ → t₁ = t₂) ∧
    (∀ id t₁ t₂, h.state.ServesWrite id t₁ → h.state.ServesWrite id t₂ → t₁ = t₂) := by
  have hf := fenced_of_reach r
  refine ⟨?_, ?_, ?_, ?_⟩
  · intro k t hs env c hc hok
    obtain ⟨k', -, hl⟩ := Call.repair_of_ok hc hok
    exact hf.repairs.superseded_ne_current hs (hf.leased k' t hl)
  · rintro id t hs ⟨env, c, lease, hc, rfl, rfl, hok⟩
    exact hf.writes.superseded_ne_current hs (hf.held _ _ (Call.writeToken_of_ok hc hok))
  · rintro k t₁ t₂ ⟨env₁, c₁, hc₁, hk₁, hok₁⟩ ⟨env₂, c₂, hc₂, hk₂, hok₂⟩
    obtain ⟨k₁, e₁, hl₁⟩ := Call.repair_of_ok hc₁ hok₁
    obtain ⟨k₂, e₂, hl₂⟩ := Call.repair_of_ok hc₂ hok₂
    cases hk₁.symm.trans e₁
    cases hk₂.symm.trans e₂
    exact Option.some.inj ((hf.leased k t₁ hl₁).symm.trans (hf.leased k t₂ hl₂))
  · rintro id t₁ t₂ ⟨env₁, c₁, lease₁, hc₁, rfl, rfl, hok₁⟩ ⟨env₂, c₂, lease₂, hc₂, hid, rfl, hok₂⟩
    have h₁ := Call.writeToken_of_ok hc₁ hok₁
    rw [← hid, Call.writeToken_of_ok hc₂ hok₂] at h₁
    exact (Option.some.inj h₁).symm

/-! ### A run -/

/-- The history after the calls of a script. -/
def LeaseHistory.run (h : LeaseHistory) (script : Script) : LeaseHistory :=
  script.foldl (fun h (now, base, c) => h.next (.counting now base) c) h

/-- Every call of the script counts its identifiers from above the tokens it finds. -/
def Script.newTokens (h : LeaseHistory) (script : Script) : Bool :=
  Lib.plays (fun h (now, base, c) => h.next (.counting now base) c)
    (fun h (_, base, _) => (h.repairs.all fun lease => lease.2.val < base) &&
      h.writes.all fun lease => lease.2.val < base) h script

omit [Sha256] in
theorem CallEnv.counting_newTokens (now : Int) {base : Nat}
    (hr : h.repairs.all (fun lease => lease.2.val < base) = true)
    (hw : h.writes.all (fun lease => lease.2.val < base) = true) :
    (CallEnv.counting now base).NewTokens h := by
  simp only [all_eq_true, decide_eq_true_eq] at hr hw
  refine ⟨fun m n e => ?_, fun k n hm => ?_, fun id n hm => ?_⟩
  · have := congrArg Uuid.val e
    simpa [counting] using this
  · have := hr _ hm
    simp [counting] at this
  · have := hw _ hm
    simp [counting] at this

theorem reach_run {Init : LeaseHistory → Prop} {script : Script} (r : Reach Init LeaseStep h)
    (hs : Script.newTokens h script = true) : Reach Init LeaseStep (h.run script) := by
  refine r.script hs fun h x _ hx => ?_
  rw [Bool.and_eq_true] at hx
  exact ⟨_, .call (CallEnv.counting_newTokens x.1 hx.1 hx.2)⟩

end Histories

/-- A repair and a write intent are each leased, left to expire and leased again. -/
def takeoverScript : Script :=
  [(0, 10, .publish { sampleAuthority with replicaStatus := .repairPending } none),
   (10, 50, .claimRepairs "first" 20 1),
   (30, 60, .claimRepairs "second" 10000000 1),
   (40, 70, .beginPhysicalWrite sampleWrite),
   (8000000, 80, .claimExpiredPhysicalWriteIntent ⟨103⟩ "second" 10000000)]

theorem takeover_fences_first : letI := sampleSha256
    ∃ h, Reach LeaseInit LeaseStep h ∧
      LeaseLog.Superseded ⟨10⟩ ⟨50⟩ h.repairs ∧ LeaseLog.Superseded ⟨103⟩ ⟨70⟩ h.writes ∧
      (Call.failRepair ⟨60⟩).result (.counting 8000001 90) h.state = .ok () ∧
      (Call.failRepair ⟨50⟩).result (.counting 8000001 90) h.state ≠ .ok () ∧
      ¬ h.state.ServesWrite ⟨103⟩ ⟨70⟩ := by
  let _ := sampleSha256
  have r : Reach LeaseInit LeaseStep ((⟨.new, [], []⟩ : LeaseHistory).run takeoverScript) :=
    reach_run (.init rfl) (by decide +kernel)
  have hr : ((⟨.new, [], []⟩ : LeaseHistory).run takeoverScript).repairs =
      [(⟨10⟩, ⟨60⟩), (⟨10⟩, ⟨50⟩)] := by decide +kernel
  have hw : ((⟨.new, [], []⟩ : LeaseHistory).run takeoverScript).writes =
      [(⟨103⟩, ⟨80⟩), (⟨103⟩, ⟨70⟩)] := by decide +kernel
  have hok : (Call.failRepair ⟨60⟩).result (.counting 8000001 90)
      ((⟨.new, [], []⟩ : LeaseHistory).run takeoverScript).state = .ok () := by decide +kernel
  generalize (⟨.new, [], []⟩ : LeaseHistory).run takeoverScript = h at *
  have hsr : LeaseLog.Superseded ⟨10⟩ ⟨50⟩ h.repairs := by simp [hr, LeaseLog.Superseded]
  have hsw : LeaseLog.Superseded ⟨103⟩ ⟨70⟩ h.writes := by simp [hw, LeaseLog.Superseded]
  obtain ⟨hfail, hserves, -, -⟩ := superseded_leases_fail r
  exact ⟨h, r, hsr, hsw, hok, hfail _ _ hsr _ _ rfl, hserves _ _ hsw⟩

end S4.Managed
