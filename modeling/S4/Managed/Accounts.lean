import S4.Managed.Rows

/-!
# Managed — Accounts

What a call does to the accounts: the logical operations, and each tenant's usage row with its
visible bytes and its single mutation slot.  A call settles an operation — commits it (`Commits`),
aborts it (`Aborts`) — or drops a whole tenant (`Drops`), or it keeps the accounts
(`KeepsAccounts`): every visible total stays, a slot changes hands only to an unfinished operation
of its tenant, and no operation is settled, reopened or forgotten (`Call.next_accounts`).

From this: a slot is only ever held by an unfinished operation of its tenant (`slotsHeld_of_reach`),
a settled operation stays settled (`Call.next_settled`), and none is forgotten or given another
intent (`operations_remembered`).
-/

namespace S4.Managed

open Lib MemoryState KeyMap

variable {s₁ : MemoryState}

namespace MemoryState

/-- `visible_logical_bytes` of the tenant. -/
def visibleBytes (s : MemoryState) (tenant : String) : Nat :=
  (s.workspaceUsage.get? tenant).elim 0 (·.visibleLogicalBytes)

/-- `active_operation_id` of the tenant. -/
def slot (s : MemoryState) (tenant : String) : Option Uuid :=
  (s.workspaceUsage.get? tenant).bind (·.activeOperationId)

/-- The operation is one of the tenant's and not settled. -/
def Unfinished (s : MemoryState) (tenant : String) (id : Uuid) : Prop :=
  ∃ operation, s.logicalOperations.get? id = some operation ∧
    operation.intent.logical.tenantId = tenant ∧ operation.state.terminal = false

/-- The operation is settled. -/
def Settled (s : MemoryState) (id : Uuid) : Prop :=
  ∃ operation, s.logicalOperations.get? id = some operation ∧ operation.state.terminal = true

theorem usageRow_visible (s : MemoryState) (now : Int) (tenant : String) :
    (s.usageRow now tenant).visibleLogicalBytes = s.visibleBytes tenant := by
  unfold usageRow visibleBytes
  cases s.workspaceUsage.get? tenant <;> rfl

theorem usageRow_slot (s : MemoryState) (now : Int) (tenant : String) :
    (s.usageRow now tenant).activeOperationId = s.slot tenant := by
  unfold usageRow slot
  cases s.workspaceUsage.get? tenant <;> rfl

variable {s s' : MemoryState} {tenant : String} {usage : ManagedWorkspaceUsage}

theorem visibleBytes_insert (h : s'.workspaceUsage = s.workspaceUsage.insert tenant usage)
    (t : String) :
    s'.visibleBytes t = if t = tenant then usage.visibleLogicalBytes else s.visibleBytes t := by
  unfold visibleBytes
  rw [h, get?_insert]
  split <;> rfl

theorem slot_insert (h : s'.workspaceUsage = s.workspaceUsage.insert tenant usage) (t : String) :
    s'.slot t = if t = tenant then usage.activeOperationId else s.slot t := by
  unfold slot
  rw [h, get?_insert]
  split <;> rfl

end MemoryState

/-! ### Calls that keep the accounts -/

/-- Every visible total stays, a slot changes hands only to an unfinished operation of its tenant,
and every operation stays as finished or unfinished as it was. -/
structure KeepsAccounts (s s' : MemoryState) : Prop where
  visible : ∀ t, s'.visibleBytes t = s.visibleBytes t
  slot : ∀ t, s'.slot t = s.slot t ∨ ∃ id, s'.slot t = some id ∧ s'.Unfinished t id
  operations : ∀ id operation, s.logicalOperations.get? id = some operation →
    ∃ operation', s'.logicalOperations.get? id = some operation' ∧
      operation'.intent = operation.intent ∧ operation'.state.terminal = operation.state.terminal

variable {id : Uuid} {c : Call} {t : String}

section Keeps

variable {s s' : MemoryState} {tenant : String}

theorem KeepsAccounts.settled (h : KeepsAccounts s s') (hs : s.Settled id) : s'.Settled id := by
  obtain ⟨old, hold, ht⟩ := hs
  obtain ⟨operation, ho, -, hst⟩ := h.operations id old hold
  exact ⟨operation, ho, hst.trans ht⟩

theorem SameAccounts.keeps (h : SameAccounts s s') : KeepsAccounts s s' := by
  refine ⟨fun t => ?_, fun t => .inl ?_, fun id operation ho => ⟨operation, ?_, rfl, rfl⟩⟩
  · rw [visibleBytes, visibleBytes, h.workspaceUsage]
  · rw [MemoryState.slot, MemoryState.slot, h.workspaceUsage]
  · rw [h.logicalOperations]
    exact ho

theorem SameContents.keepsAccounts (h : SameContents s s') : KeepsAccounts s s' := by
  refine ⟨fun t => ?_, fun t => .inl ?_, fun id operation ho => ⟨operation, ?_, rfl, rfl⟩⟩
  · rw [visibleBytes, visibleBytes, h.workspaceUsage.get?_eq]
  · rw [MemoryState.slot, MemoryState.slot, h.workspaceUsage.get?_eq]
  · exact (h.logicalOperations.get?_eq id).symm.trans ho

theorem KeepsAccounts.refl (s : MemoryState) : KeepsAccounts s s := (SameAccounts.refl s).keeps

theorem KeepsAccounts.of_eq (h : s' = s) : KeepsAccounts s s' := by
  subst h
  exact .refl s'

theorem KeepsAccounts.trans (h : KeepsAccounts s s₁)
    (h' : KeepsAccounts s₁ s') : KeepsAccounts s s' := by
  refine ⟨fun t => (h'.visible t).trans (h.visible t), fun t => ?_, fun id operation ho => ?_⟩
  · rcases h'.slot t with e' | hu'
    · rcases h.slot t with e | ⟨id, hid, operation, ho, ht, hf⟩
      · exact .inl (e'.trans e)
      · obtain ⟨operation', ho', hi', hf'⟩ := h'.operations id operation ho
        exact .inr ⟨id, e'.trans hid, operation', ho', by rw [hi', ht], hf'.trans hf⟩
    · exact .inr hu'
  · obtain ⟨o₁, h₁, hi₁, hf₁⟩ := h.operations id operation ho
    obtain ⟨o₂, h₂, hi₂, hf₂⟩ := h'.operations id o₁ h₁
    exact ⟨o₂, h₂, hi₂.trans hi₁, hf₂.trans hf₁⟩

/-- A usage row is rewritten with the same visible bytes and the same slot. -/
theorem KeepsAccounts.setUsage (now : Int) {usage : ManagedWorkspaceUsage}
    (hv : usage.visibleLogicalBytes = (s.usageRow now tenant).visibleLogicalBytes)
    (hs : usage.activeOperationId = (s.usageRow now tenant).activeOperationId) :
    KeepsAccounts s (s.setUsage tenant usage) := by
  refine ⟨fun t => ?_, fun t => .inl ?_, fun id operation ho => ⟨operation, ho, rfl, rfl⟩⟩
  · rw [visibleBytes_insert (s := s) rfl t]
    split
    · rename_i e
      rw [hv, s.usageRow_visible, e]
    · rfl
  · rw [slot_insert (s := s) rfl t]
    split
    · rename_i e
      rw [hs, s.usageRow_slot, e]
    · rfl

theorem KeepsAccounts.touch (now : Int) (tenant : String) :
    KeepsAccounts s (s.touchUsage now tenant) :=
  .setUsage now rfl rfl

theorem KeepsAccounts.of_touch {now : Int}
    (h : s' = s.touchUsage now tenant) : KeepsAccounts s s' := by
  subst h
  exact .touch now tenant

/-- An operation is rewritten with the same intent, as finished or unfinished as it was. -/
theorem KeepsAccounts.setOperation {operation : ManagedLogicalOperation}
    (h : ∀ old, s.logicalOperations.get? id = some old →
      operation.intent = old.intent ∧ operation.state.terminal = old.state.terminal) :
    KeepsAccounts s (s.setOperation id operation) := by
  refine ⟨fun t => rfl, fun t => .inl rfl, fun id' old ho => ?_⟩
  simp only [MemoryState.setOperation, get?_insert]
  split
  · rename_i e
    subst e
    exact ⟨operation, rfl, h old ho⟩
  · exact ⟨old, ho, rfl, rfl⟩

/-- The two states agree outside the authorities and the repair rows. -/
def OnlyRows (s s' : MemoryState) : Prop :=
  s' = { s with authorities := s'.authorities, repairs := s'.repairs }

theorem OnlyRows.trans (h : OnlyRows s s₁) (h' : OnlyRows s₁ s') :
    OnlyRows s s' := by
  rw [OnlyRows] at *
  rw [h', h]

theorem OnlyRepairs.rows (h' : OnlyRepairs s₁ s') (h : OnlyRows s s₁) :
    OnlyRows s s' := by
  refine h.trans ?_
  rw [OnlyRepairs] at h'
  rw [h']
  rfl

theorem OnlyRows.accounts (h : OnlyRows s s') : SameAccounts s s' := by
  rw [OnlyRows] at h
  rw [h]
  exact ⟨rfl, rfl⟩

end Keeps

section Calls

variable (env : CallEnv) (s : MemoryState)

theorem insertLogicalOperation_keeps (intent : ManagedLogicalOperationIntent) :
    KeepsAccounts s (insertLogicalOperation env s intent).2 := by
  unfold insertLogicalOperation
  split
  · exact .refl s
  split
  · exact .refl s
  split
  · exact .refl s
  split
  · split <;> exact .refl s
  rename_i hnone
  split
  · exact .refl s
  refine .setOperation fun old ho => ?_
  rw [hnone] at ho
  cases ho

theorem reserveLogicalOperation_keeps (id : Uuid) (bytes : Nat) :
    KeepsAccounts s (reserveLogicalOperation env s id bytes).2 := by
  unfold reserveLogicalOperation
  split
  · exact .refl s
  rename_i operation ho
  split
  · exact .refl s
  dsimp only
  split
  · exact .touch env.now _
  split
  · exact .touch env.now _
  rename_i hintent
  have hintent := not_not.mp hintent
  split
  · exact .touch env.now _
  split
  · split
    · exact .touch env.now _
    · -- The slot goes to the operation, which opens.
      refine ⟨fun t => ?_, fun t => ?_, fun id' old hold => ?_⟩
      · rw [visibleBytes_insert (s := s) rfl t]
        split
        · rename_i e
          subst e
          exact s.usageRow_visible env.now _
        · rfl
      · rw [slot_insert (s := s) rfl t]
        split
        · rename_i e
          refine .inr ⟨id, rfl, _, get?_insert_self .., e.symm, rfl⟩
        · exact .inl rfl
      · simp only [MemoryState.setOperation, setUsage, get?_insert]
        split
        · rename_i e
          subst e
          rw [ho] at hold
          cases hold
          exact ⟨_, rfl, rfl, by rw [hintent]; rfl⟩
        · exact ⟨old, hold, rfl, rfl⟩
  · exact .touch env.now _

theorem recordLogicalUsage_keeps (id : Uuid) (evidence : ManagedUsageEvidence) :
    KeepsAccounts s (recordLogicalUsage env s id evidence).2 := by
  unfold recordLogicalUsage
  split
  · exact .refl s
  split
  · exact .refl s
  rename_i operation ho
  split
  · exact .refl s
  split
  · exact .refl s
  refine .setOperation fun old hold => ?_
  rw [ho] at hold
  cases hold
  exact ⟨rfl, rfl⟩

/-- A transition neither starts nor ends in a settled state. -/
theorem terminal_of_validLogicalTransition {source target : ManagedLogicalOperationState}
    (h : validLogicalTransition source target = true) :
    source.terminal = false ∧ target.terminal = false := by
  cases source <;> cases target <;> first | exact ⟨rfl, rfl⟩ | cases h

theorem transitionLogicalOperation_keeps (id : Uuid)
    (source target : ManagedLogicalOperationState) (error : Option String) :
    KeepsAccounts s (transitionLogicalOperation env s id source target error).2 := by
  unfold transitionLogicalOperation
  split
  · exact .refl s
  rename_i hvalid
  split
  · exact .refl s
  rename_i operation ho
  split
  · exact .refl s
  rename_i hstate
  obtain ⟨hsource, htarget⟩ := terminal_of_validLogicalTransition (by simpa using hvalid)
  refine .setOperation fun old hold => ?_
  rw [ho] at hold
  cases hold
  exact ⟨rfl, by rw [not_not.mp hstate, hsource]; exact htarget⟩

theorem releaseAllocation_keeps (id : Uuid) {operation : ManagedLogicalOperation}
    (ho : s.logicalOperations.get? id = some operation) :
    KeepsAccounts s (s.releaseAllocation env id operation).2 := by
  unfold releaseAllocation
  split
  · exact .refl s
  split
  · exact .refl s
  dsimp only
  split
  · exact .touch env.now _
  refine (KeepsAccounts.setUsage env.now ?_ ?_).trans (.setOperation ?_)
  · rfl
  · rfl
  · intro old hold
    have hold : s.logicalOperations.get? id = some old := hold
    rw [ho] at hold
    cases hold
    exact ⟨rfl, rfl⟩

theorem forgetPhysicalVersion_keeps (target : PhysicalVersionTarget) :
    KeepsAccounts s (forgetPhysicalVersion env s target).2 := by
  have hforget : SameAccounts s
      { s with physicalVersions := s.physicalVersions.filter (· != target) } := ⟨rfl, rfl⟩
  unfold forgetPhysicalVersion
  dsimp only
  split
  · exact hforget.keeps
  split
  · exact hforget.keeps
  rename_i id operation hfound
  exact hforget.keeps.trans
    (releaseAllocation_keeps env _ id (findEntry_some hfound).1)

variable [Sha256]

theorem publish_rows (authority : ObjectAuthority) (cas : Option Nat) :
    OnlyRows s (publish env s authority cas).2 := by
  simp only [publish]
  repeat' split
  all_goals first | exact rfl | exact (s.replaceAuthority_only ..).rows rfl

theorem applyRepair_rows (repair : RepairRecord) : OnlyRows s (s.applyRepair env repair).2 := by
  simp only [MemoryState.applyRepair]
  repeat' split
  all_goals first
    | exact rfl
    | exact ((MemoryState.parkCleanups_only ..).rows (by exact rfl)).trans rfl

theorem completeRepair_rows (repair : RepairRecord) :
    OnlyRows s (completeRepair env s repair).2 := by
  simp only [completeRepair]
  repeat' split
  all_goals first | exact rfl | exact .trans (by exact rfl) (applyRepair_rows env _ repair)

/-- The calls on authorities and repair rows. -/
def Call.onRows : Call → Bool
  | .publish .. | .tombstone .. | .advancePlacementVersion .. | .enqueue .. => true
  | .claimRepairs .. | .renewRepair .. | .failRepair .. | .completeRepair .. => true
  | _ => false

theorem Call.next_onlyRows (h : c.onRows = true) : OnlyRows s (c.next env s) := by
  cases c with
  | publish authority cas => exact publish_rows env s authority cas
  | tombstone logical cas => exact publish_rows env s _ cas
  | advancePlacementVersion | renewRepair | failRepair =>
    simp only [Call.next, runCall, Managed.advancePlacementVersion, Managed.renewRepair,
      Managed.failRepair]
    repeat' split
    all_goals rfl
  | enqueue =>
    simp only [Call.next, runCall, Managed.enqueue]
    repeat' split
    all_goals first | exact rfl | exact (insertMemoryRepair_only ..).rows rfl
  | claimRepairs => rfl
  | completeRepair repair => exact completeRepair_rows env s repair
  | _ => cases h

/-- The calls that never change a logical operation or a usage row. -/
theorem Call.next_sameAccounts (h : c.touchesAccounts = false) : SameAccounts s (c.next env s) := by
  by_cases hr : c.onRows = true
  · exact (c.next_onlyRows env s hr).accounts
  refine (c.next_same env s ?_ h).2
  cases c with
  | commitLogicalPut | commitLogicalDelete | proveLogicalAbort | purgeNamespace
  | namespacePurgeStatus => cases h
  | _ => first | rfl | exact absurd rfl hr

/-- The calls that may settle an operation or drop a tenant. -/
def Call.settling : Call → Bool
  | .commitLogicalPut .. | .commitLogicalDelete .. | .proveLogicalAbort .. => true
  | .purgeNamespace .. | .namespacePurgeStatus .. => true
  | _ => false

theorem Call.next_keeps (h : c.settling = false) : KeepsAccounts s (c.next env s) := by
  by_cases ht : c.touchesAccounts = false
  · exact (c.next_sameAccounts env s ht).keeps
  cases c with
  | insertLogicalOperation intent => exact insertLogicalOperation_keeps env s intent
  | reserveLogicalOperation id bytes => exact reserveLogicalOperation_keeps env s id bytes
  | recordLogicalUsage id evidence => exact recordLogicalUsage_keeps env s id evidence
  | transitionLogicalOperation id source target error =>
    exact transitionLogicalOperation_keeps env s id source target error
  | forgetPhysicalVersion target => exact forgetPhysicalVersion_keeps env s target
  | commitLogicalPut | commitLogicalDelete | proveLogicalAbort | purgeNamespace
  | namespacePurgeStatus => cases h
  | _ => exact absurd rfl ht

/-- **A call settles an operation, drops a tenant, or keeps the accounts.** -/
theorem Call.next_accounts (c : Call) :
    KeepsAccounts s (c.next env s) ∨
    (∃ id operation authority usage, Commits env id operation authority usage s (c.next env s)) ∨
    (∃ id operation usage proven, s.logicalOperations.get? id = some operation ∧
      operation.state.terminal = false ∧ Aborts env id operation usage proven s (c.next env s)) ∨
    ∃ tenant, Drops env tenant s (c.next env s) := by
  by_cases h : c.settling = false
  · exact .inl (c.next_keeps env s h)
  have hpurge := c.next_purge env s
  cases c with
  | commitLogicalPut id authority allocated =>
    obtain e | ⟨tenant, e⟩ | ⟨-, -, operation, usage, hc⟩ :=
      commitLogicalPut_cases env s id authority allocated
    · exact .inl (.of_eq e)
    · exact .inl (.of_touch e)
    · exact .inr (.inl ⟨id, operation, authority, usage, hc⟩)
  | commitLogicalDelete id placement =>
    obtain e | ⟨tenant, e⟩ | ⟨operation, usage, hc⟩ := commitLogicalDelete_cases env s id placement
    · exact .inl (.of_eq e)
    · exact .inl (.of_touch e)
    · exact .inr (.inl ⟨id, operation, _, usage, hc⟩)
  | proveLogicalAbort id error physical =>
    obtain ⟨e, -⟩ | ⟨operation, usage, proven, ho, ht, -, ha, -⟩ :=
      proveLogicalAbort_cases env s id error physical
    · exact .inl (.of_eq e)
    · exact .inr (.inr (.inl ⟨id, operation, usage, proven, ho, ht, ha⟩))
  | purgeNamespace | namespacePurgeStatus =>
    obtain ⟨-, ha⟩ | h := hpurge rfl
    · exact .inl ha.keeps
    · exact .inr (.inr (.inr h))
  | _ => exact absurd rfl h

end Calls

/-! ### Slots -/

section Slots

variable {env : CallEnv} {s s' : MemoryState} {usage : ManagedWorkspaceUsage}
  {tenant : String}

/-- A slot is held by an unfinished operation of its tenant. -/
def SlotsHeld (s : MemoryState) : Prop :=
  ∀ t id, s.slot t = some id → s.Unfinished t id

/-- Another operation is rewritten. -/
theorem MemoryState.Unfinished.insert {id' : Uuid}
    {operation : ManagedLogicalOperation} (h : s.Unfinished t id) (hne : id ≠ id')
    (ho : s'.logicalOperations = s.logicalOperations.insert id' operation) :
    s'.Unfinished t id := by
  obtain ⟨old, hold, hrest⟩ := h
  refine ⟨old, ?_, hrest⟩
  rw [ho, get?_insert_ne _ _ hne]
  exact hold

theorem MemoryState.Unfinished.congr (h : s.Unfinished t id)
    (ho : s'.logicalOperations = s.logicalOperations) : s'.Unfinished t id := by
  obtain ⟨old, hold, hrest⟩ := h
  exact ⟨old, ho ▸ hold, hrest⟩

theorem Aborts.slotsHeld {operation : ManagedLogicalOperation} {proven : Bool}
    (h : Aborts env id operation usage proven s s')
    (hfound : s.logicalOperations.get? id = some operation) (hs : SlotsHeld s) : SlotsHeld s' := by
  intro t id' hslot
  rw [slot_insert h.workspaceUsage] at hslot
  cases proven with
  | false =>
    obtain ⟨ho, hactive⟩ := h.unproven rfl
    rw [hactive, s.usageRow_slot] at hslot
    have hslot : s.slot t = some id' := by
      split at hslot
      · rename_i e
        rw [e]
        exact hslot
      · exact hslot
    exact (hs t id' hslot).congr ho
  | true =>
    obtain ⟨hnot, hactive, aborted, ho, -, -⟩ := h.settles rfl
    split at hslot
    · rename_i e
      rcases hactive with hactive | hactive
      · rw [hactive] at hslot
        cases hslot
      · have hne : id' ≠ id := by
          rintro rfl
          exact hnot hslot
        rw [hactive, s.usageRow_slot, ← e] at hslot
        exact (hs t id' hslot).insert hne ho
    · rename_i hne
      have hu := hs t id' hslot
      refine hu.insert ?_ ho
      rintro rfl
      obtain ⟨old, hold, ht, -⟩ := hu
      rw [hfound] at hold
      cases hold
      exact hne ht.symm

/-- A dropped tenant's operations keep their intents and states. -/
theorem Drops.operation (h : Drops env tenant s s')
    {operation : ManagedLogicalOperation} (ho : s.logicalOperations.get? id = some operation) :
    ∃ operation', s'.logicalOperations.get? id = some operation' ∧
      operation'.intent = operation.intent ∧ operation'.state = operation.state := by
  rw [h.logicalOperations, dropNamespace, get?_mapValues, ho]
  refine ⟨_, rfl, ?_⟩
  dsimp only
  split <;> exact ⟨rfl, rfl⟩

theorem Drops.slot (h : Drops env tenant s s') (t : String) :
    s'.slot t = if t = tenant then none else s.slot t := by
  unfold MemoryState.slot
  rw [h.workspaceUsage, dropNamespace, get?_modify]
  split
  · cases s.workspaceUsage.get? tenant <;> rfl
  · rfl

theorem Drops.slotsHeld (h : Drops env tenant s s') (hs : SlotsHeld s) : SlotsHeld s' := by
  intro t id hslot
  rw [h.slot t] at hslot
  split at hslot
  · cases hslot
  obtain ⟨old, hold, ht, hf⟩ := hs t id hslot
  obtain ⟨operation, ho, hi, hst⟩ := h.operation hold
  exact ⟨operation, ho, by rw [hi, ht], by rw [hst, hf]⟩

theorem KeepsAccounts.slotsHeld (h : KeepsAccounts s s') (hs : SlotsHeld s) : SlotsHeld s' := by
  intro t id hslot
  rcases h.slot t with e | ⟨id', e, hu⟩
  · obtain ⟨old, hold, ht, hf⟩ := hs t id (e ▸ hslot)
    obtain ⟨operation, ho, hi, hst⟩ := h.operations id old hold
    exact ⟨operation, ho, by rw [hi, ht], by rw [hst, hf]⟩
  · rw [hslot] at e
    cases e
    exact hu

variable [Sha256]

theorem Commits.slotsHeld {operation : ManagedLogicalOperation} {authority : ObjectAuthority}
    (h : Commits env id operation authority usage s s') (hs : SlotsHeld s) : SlotsHeld s' := by
  intro t id' hslot
  rw [slot_insert h.workspaceUsage] at hslot
  rcases h.settles with ⟨hkept, ho⟩ | ⟨hfree, committed, -, -, ho⟩
  · have hslot : s.slot t = some id' := by
      split at hslot
      · rename_i e
        rw [e, ← s.usageRow_slot env.now, h.active, ← hkept]
        exact hslot
      · exact hslot
    exact (hs t id' hslot).congr ho
  · split at hslot
    · rw [hfree] at hslot
      cases hslot
    · rename_i hne
      have hu := hs t id' hslot
      refine hu.insert ?_ ho
      rintro rfl
      obtain ⟨old, hold, ht, -⟩ := hu
      rw [h.found] at hold
      cases hold
      exact hne ht.symm

theorem Call.next_slotsHeld (hs : SlotsHeld s) : SlotsHeld (c.next env s) := by
  obtain h | ⟨_, _, _, _, h⟩ | ⟨_, _, _, _, ho, -, h⟩ | ⟨_, h⟩ := c.next_accounts env s
  · exact h.slotsHeld hs
  · exact h.slotsHeld hs
  · exact h.slotsHeld ho hs
  · exact h.slotsHeld hs

/-- The operation is still there with its intent, and settled if it was. -/
def MemoryState.Remembers (s : MemoryState) (id : Uuid) (operation : ManagedLogicalOperation) :
    Prop :=
  ∃ operation', s.logicalOperations.get? id = some operation' ∧
    operation'.intent = operation.intent ∧
    (operation.state.terminal = true → operation'.state.terminal = true)

omit [Sha256] in
theorem MemoryState.Remembers.insert {operation old new : ManagedLogicalOperation} {id' : Uuid}
    (h : s.Remembers id operation) (hold : s.logicalOperations.get? id' = some old)
    (hi : new.intent = old.intent) (ht : new.state.terminal = true)
    (hs : s'.logicalOperations = s.logicalOperations.insert id' new) :
    s'.Remembers id operation := by
  obtain ⟨found, hf, hint, hterm⟩ := h
  unfold Remembers
  rw [hs, get?_insert]
  split
  next e =>
    subst e
    cases hf.symm.trans hold
    exact ⟨new, rfl, hi.trans hint, fun _ => ht⟩
  · exact ⟨found, hf, hint, hterm⟩

theorem Call.next_remembers {operation : ManagedLogicalOperation} (hr : s.Remembers id operation) :
    (c.next env s).Remembers id operation := by
  have ⟨found, hf, hint, hterm⟩ := hr
  obtain h | ⟨_, _, _, _, h⟩ | ⟨_, _, _, proven, ho, -, h⟩ | ⟨_, h⟩ := c.next_accounts env s
  · obtain ⟨op, ho, hi, ht⟩ := h.operations id found hf
    exact ⟨op, ho, hi.trans hint, fun h => ht.trans (hterm h)⟩
  · rcases h.settles with ⟨-, e⟩ | ⟨-, committed, hi, hst, e⟩
    · exact ⟨found, e ▸ hf, hint, hterm⟩
    · exact hr.insert h.found hi (by rw [hst]; rfl) e
  · cases proven with
    | false => exact ⟨found, (h.unproven rfl).1 ▸ hf, hint, hterm⟩
    | true =>
      obtain ⟨-, -, aborted, e, hi, hst⟩ := h.settles rfl
      exact hr.insert ho hi (by rw [hst]; rfl) e
  · obtain ⟨op, ho, hi, hst⟩ := h.operation hf
    exact ⟨op, ho, hi.trans hint, fun h => by rw [hst, hterm h]⟩

/-- **A settled operation stays settled.** -/
theorem Call.next_settled (hs : s.Settled id) : (c.next env s).Settled id := by
  obtain ⟨old, hold, ht⟩ := hs
  obtain ⟨operation, ho, -, hterm⟩ : (c.next env s).Remembers id old :=
    next_remembers ⟨old, hold, rfl, fun h => h⟩
  exact ⟨operation, ho, hterm ht⟩

/-- **A slot is only ever held by an unfinished operation of its tenant.** -/
theorem slotsHeld_of_reach (r : Reach Init Step s) : SlotsHeld s := by
  refine r.invariant (I := SlotsHeld) ?_ ?_
  · rintro s rfl t id h
    cases h
  · intro s e s' _ hs hstep
    cases hstep with
    | call => exact Call.next_slotsHeld hs
    | rehash h => exact h.keepsAccounts.slotsHeld hs

/-- **No operation is ever forgotten, given another intent or reopened**, and a settled one never
holds a slot again. -/
theorem operations_remembered {operation : ManagedLogicalOperation} (r : Reach Init Step s)
    (ho : s.logicalOperations.get? id = some operation) (r' : Reach (· = s) Step s') :
    s'.Remembers id operation ∧
      (operation.state.terminal = true → ∀ t, s'.slot t ≠ some id) := by
  have h : SlotsHeld s' ∧ s'.Remembers id operation := by
    refine r'.invariant (I := fun s => SlotsHeld s ∧ s.Remembers id operation) ?_ ?_
    · rintro _ rfl
      exact ⟨slotsHeld_of_reach r, operation, ho, rfl, fun h => h⟩
    · rintro s e s' - ⟨hs, hr⟩ hstep
      cases hstep with
      | call => exact ⟨Call.next_slotsHeld hs, Call.next_remembers hr⟩
      | rehash h =>
        obtain ⟨found, hf, hrest⟩ := hr
        exact ⟨h.keepsAccounts.slotsHeld hs, found, (h.logicalOperations.get?_eq id).symm.trans hf,
          hrest⟩
  refine ⟨h.2, fun ht t hslot => ?_⟩
  obtain ⟨held, hheld, -, hopen⟩ := h.1 t id hslot
  obtain ⟨found, hf, -, hterm⟩ := h.2
  cases hheld.symm.trans hf
  cases hopen.symm.trans (hterm ht)

end Slots

/-- A put that is settled stays so through a delete of its object. -/
theorem put_remembered : letI := sampleSha256
    ∃ operation s', (runSample putScript).logicalOperations.get? ⟨101⟩ = some operation ∧
      operation.state.terminal = true ∧ Reach (· = runSample putScript) Step s' ∧
      s'.Remembers ⟨101⟩ operation ∧ s'.slot "t" ≠ some ⟨101⟩ := by
  let _ := sampleSha256
  have r : Reach Init Step (runSample putScript) := reach_runSample (by decide +kernel)
  have r' := (Reach.init rfl : Reach (· = runSample putScript) Step _).step
    (.call (c := .tombstone sampleKey (some 1) ⟨1, "a", some "b"⟩)
      (@CallEnv.counting_fresh _ 7 10 (by decide +kernel)) rfl)
  have hput : ((runSample putScript).logicalOperations.get? ⟨101⟩).any (·.state.terminal) =
    true := by
    decide +kernel
  obtain ⟨operation, ho, ht⟩ := (Option.any_eq_true ..).mp hput
  obtain ⟨hr, hslot⟩ := operations_remembered r ho r'
  exact ⟨operation, _, ho, ht, r', hr, hslot ht "t"⟩

end S4.Managed
