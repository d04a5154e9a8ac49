import S4.Managed.Leases
import S4.Managed.Books

/-!
# Managed — Purge

A purge fences its tenant, waits until the tenant has no unfinished operation, no write intent, no
ledgered version and no multipart activity, and then drops what is left and moves the tenant to a
new namespace epoch.

While the fence stands, no call adds to the tenant (`Call.fenced_result`), and no commit finishes
(`commit_rerouted`).  The step that completes the purge leaves the tenant empty (`Emptied`,
`Call.next_completes`).  Afterwards nothing that was handed out before can change anything: the
operations made before carry an epoch that the tenant has left, and the leases held before are of
rows that are gone, under tokens that are not issued again.
-/

namespace S4.Managed

open Lib MemoryState KeyMap

/-! ### A fenced tenant -/

/-- The tenant for which a call would add something. -/
def Call.addsFor (s : MemoryState) : Call → Option String
  | .insertLogicalOperation intent => some intent.logical.tenantId
  | .reserveLogicalOperation id _  => (s.logicalOperations.get? id).map (·.tenant)
  | .beginPhysicalWrite intent     => some intent.tenantId
  | .publish authority _           => some authority.logical.tenantId
  | .tombstone logical _ _         => some logical.tenantId
  | .enqueue repair                => some repair.logical.tenantId
  | .createListCursor request _    => some request.binding.tenantId
  | .beginMultipartActivity _ t    => some t
  | _                              => none

/-- The operation that a call would commit. -/
def Call.commitsOperation : Call → Option Uuid
  | .commitLogicalPut id _ _ => some id
  | .commitLogicalDelete id _ => some id
  | _ => none

variable {c : Call} {status : NamespacePurgeStatus} {tenant : String} {u : ManagedWorkspaceUsage}
  {old : ManagedLogicalOperation} {tok k j : Uuid} {lease : PhysicalWriteLease} {r' : RepairRecord}

section Fence

variable [Sha256] {env : CallEnv} {s : MemoryState} {t : String} {id : Uuid}
  {o : ManagedLogicalOperation}

omit [Sha256] in
theorem routeChanged_of_fenced (h : s.fenced o.tenant = true) : s.routeChanged o.intent = true := by
  simp [routeChanged, show s.fenced o.intent.logical.tenantId = true from h]

omit [Sha256] in
theorem reserve_rerouted (ho : s.logicalOperations.get? id = some o)
    (hr : s.routeChanged o.intent = true) (bytes : Nat) :
    reserveLogicalOperation env s id bytes = (.error .namespaceFenced, s) := by
  simp [reserveLogicalOperation, ho, hr]

/-- A commit of an operation whose tenant has been fenced or rerouted changes nothing, except that a
replayed commit looks up the usage row. -/
theorem commit_rerouted {env : CallEnv} (hc : c.commitsOperation = some id)
    (ho : s.logicalOperations.get? id = some o) (hr : s.routeChanged o.intent = true) :
    c.next env s = s ∨
    (o.state = .committed ∧ c.next env s = s.touchUsage env.now o.intent.logical.tenantId) := by
  cases c with
  | commitLogicalPut =>
    cases hc
    simp only [Call.next, runCall, Managed.commitLogicalPut, ho]
    split
    · next hst => exact (replayCommit_cases env s o _).imp_right fun e => ⟨hst, e⟩
    split
    · exact .inl rfl
    · next hchecks =>
      obtain ⟨-, -, -, -, -, -, hroute, -⟩ := commitPutChecks_ok s hchecks
      cases hr.symm.trans hroute
  | commitLogicalDelete =>
    cases hc
    simp only [Call.next, runCall, Managed.commitLogicalDelete, ho]
    split
    · next hst => exact (replayCommit_cases env s o _).imp_right fun e => ⟨hst, e⟩
    · split <;> exact .inl rfl
  | _ => cases hc

/-- **No call adds to a fenced tenant.** -/
theorem Call.fenced_result (hf : s.fenced t = true) (hc : c.addsFor s = some t) :
    c.result env s ≠ .ok () := by
  cases c with
  | insertLogicalOperation | beginPhysicalWrite | createListCursor =>
    cases hc
    simp only [Call.result, runCall, Outcome.unit, Managed.insertLogicalOperation,
      Managed.beginPhysicalWrite, Managed.createListCursor, hf]
    split <;> simp [Except.map]
  | reserveLogicalOperation =>
    obtain ⟨o, ho, rfl⟩ := Option.map_eq_some_iff.mp hc
    simp [Call.result, runCall, Outcome.unit, Except.map,
      reserve_rerouted ho (routeChanged_of_fenced hf)]
  | publish | enqueue | beginMultipartActivity =>
    cases hc
    simp [Call.result, runCall, Outcome.unit, Except.map, Managed.publish, Managed.enqueue,
      Managed.beginMultipartActivity, hf]
  | tombstone =>
    cases hc
    simp [Call.result, runCall, Outcome.unit, Except.map, Managed.tombstone, Managed.publish,
      ObjectAuthority.tombstoneOf, hf]
  | _ => cases hc

end Fence

/-! ### The step that completes a purge -/

/-- The purge `p` of the tenant is complete. -/
def MemoryState.PurgeComplete (s : MemoryState) (p : Uuid) (t : String) : Prop :=
  ∃ purge n, s.purges.get? p = some purge ∧ purge.tenantId = t ∧ purge.status = .complete n

/-- The tenant has nothing left. -/
structure Emptied (s : MemoryState) (t : String) : Prop where
  authorities : ∀ l a, s.authorities.get? l = some a → l.tenantId ≠ t
  repairs : ∀ k r, s.repairs.get? k = some r → r.1.logical.tenantId ≠ t
  writes : ∀ id i, s.physicalWriteIntents.get? id = some i → i.tenantId ≠ t
  versions : ∀ v ∈ s.physicalVersions, v.tenantId ≠ t
  activities : ∀ upload a, s.multipartActivities.get? upload = some a → a.1 ≠ t
  cursors : ∀ id c, s.listCursors.get? id = some c → c.binding.tenantId ≠ t
  operations : ∀ id o, s.logicalOperations.get? id = some o → o.tenant = t → o.state.terminal = true
  usage : (s.account t).active = none ∧ (s.account t).reserved = 0 ∧ (s.account t).physical = 0 ∧
    (s.account t).visible = 0

section Complete

variable {env : CallEnv} {s : MemoryState} {p id : Uuid} {t : String}

theorem MemoryState.PurgeComplete.of_setPurgeStatus
    (h : (s.setPurgeStatus id status).PurgeComplete p t) (hs : ∀ n, status ≠ .complete n) :
    s.PurgeComplete p t := by
  obtain ⟨purge, n, hp, ht, hst⟩ := h
  obtain ⟨-, old, -, rfl⟩ | ⟨-, hp⟩ := get?_modify_cases hp
  · exact absurd hst (hs n)
  · exact ⟨purge, n, hp, ht, hst⟩

/-- What the tenant of a purge still has when the purge drops it. -/
theorem emptied_dropNamespace (hops : (s.logicalOperations.any fun operation =>
      operation.intent.logical.tenantId == t && !operation.state.terminal) = false)
    (hown : s.ownsStorage t = false) :
    Emptied ((s.dropNamespace env t).setPurgeStatus id status) t := by
  simp only [ownsStorage, Bool.or_eq_false_iff, KeyMap.any_eq_false_iff,
    List.any_eq_false, beq_eq_false_iff_ne] at hown
  rw [KeyMap.any_eq_false_iff] at hops
  obtain ⟨⟨hwrites, hversions⟩, hactivities⟩ := hown
  refine ⟨?_, ?_, fun id i hi => hwrites id i hi, ?_, fun u a ha => hactivities u a ha, ?_, ?_, ?_⟩
  · intro l a hl
    simp only [setPurgeStatus, dropNamespace, get?_retain,
      Option.filter_eq_some_iff] at hl
    simpa using hl.2
  · intro k r hk
    simp only [setPurgeStatus, dropNamespace, get?_retain,
      Option.filter_eq_some_iff] at hk
    simpa using hk.2
  · intro v hv
    simpa using hversions v hv
  · intro id c hc
    simp only [setPurgeStatus, dropNamespace, get?_retain,
      Option.filter_eq_some_iff] at hc
    simpa using hc.2
  · intro id o ho ht
    simp only [setPurgeStatus, dropNamespace, get?_mapValues,
      Option.map_eq_some_iff] at ho
    obtain ⟨old, hold, rfl⟩ := ho
    have hterm := hops id old hold
    split at ht
    · next e =>
      simp only [if_pos e]
      simpa [e] using hterm
    · next e => exact absurd ht e
  · simp only [account, setPurgeStatus, dropNamespace,
      get?_modify]
    cases s.workspaceUsage.get? t <;> exact ⟨rfl, rfl, rfl, rfl⟩

theorem namespaceEpoch_dropNamespace :
    ((s.dropNamespace env t).setPurgeStatus id status).namespaceEpoch t =
    s.namespaceEpoch t + 1 := by
  simp [namespaceEpoch, setPurgeStatus, dropNamespace]

/-- A purge that becomes complete leaves its tenant empty, in a new epoch. -/
theorem finishPurge_completes (h : (finishPurge env s id).2.PurgeComplete p t)
    (hn : ¬ s.PurgeComplete p t) :
    Emptied (finishPurge env s id).2 t ∧
      (finishPurge env s id).2.namespaceEpoch t = s.namespaceEpoch t + 1 := by
  obtain e | ⟨reason, e⟩ | ⟨purge, n, hp, -, hops, hown, e⟩ := finishPurge_ends env s id
  · rw [e] at h
    exact absurd h hn
  · rw [e] at h
    exact absurd (h.of_setPurgeStatus (by simp)) hn
  · rw [e] at h ⊢
    -- the tenant that is dropped is that of the purge which has become complete
    obtain ⟨purge', m, hp', ht, hst⟩ := h
    obtain ⟨-, old, hold, rfl⟩ | ⟨-, hp'⟩ := get?_modify_cases hp'
    · cases hp.symm.trans hold
      cases ht
      exact ⟨emptied_dropNamespace hops hown, namespaceEpoch_dropNamespace⟩
    · exact absurd ⟨purge', m, hp', ht, hst⟩ hn

/-- **The call that completes a purge leaves its tenant empty, in a new epoch.** -/
theorem Call.next_completes [Sha256] (h : (c.next env s).PurgeComplete p t)
    (hn : ¬ s.PurgeComplete p t) :
    Emptied (c.next env s) t ∧ (c.next env s).namespaceEpoch t = s.namespaceEpoch t + 1 := by
  by_cases hc : c.onNamespaces = false
  · refine absurd ?_ hn
    simp only [MemoryState.PurgeComplete, (c.next_namespaces env s hc).purges] at h
    exact h
  cases c with
  | purgeNamespace request =>
    rw [Call.next, runCall] at h ⊢
    obtain e | e | ⟨-, -, e⟩ := purgeNamespace_ends env s request
    · exact absurd (e ▸ h) hn
    · rw [e] at h ⊢
      exact finishPurge_completes h hn
    · rw [e] at h ⊢
      refine finishPurge_completes h ?_
      -- the purge that has just been made is not complete
      rintro ⟨purge, n, hp, ht, hst⟩
      obtain ⟨-, rfl⟩ | ⟨-, hp⟩ := get?_insert_cases hp
      · cases hst
      · exact hn ⟨purge, n, hp, ht, hst⟩
  | namespacePurgeStatus => exact finishPurge_completes h hn
  | markPurgeTargetDeleted =>
    refine absurd ?_ hn
    simp only [Call.next, runCall, Managed.markPurgeTargetDeleted] at h
    split at h
    · exact h
    · obtain ⟨purge, n, hp, ht, hst⟩ := h
      obtain ⟨-, old, -, rfl⟩ | ⟨-, hp⟩ := get?_modify_cases hp
      · cases hst
      · exact ⟨purge, n, hp, ht, hst⟩
  | markPurgeTargetBlocked =>
    exact absurd (h.of_setPurgeStatus (by simp)) hn
  | _ => exact absurd rfl hc

end Complete

/-! ### Epochs, operations and usage rows -/

section Operations

variable {env : CallEnv} {s s' : MemoryState} {id : Uuid} {o : ManagedLogicalOperation}

theorem finishPurge_epoch (id : Uuid) (t : String) :
    s.namespaceEpoch t ≤ (finishPurge env s id).2.namespaceEpoch t := by
  obtain e | ⟨reason, e⟩ | ⟨purge, n, -, -, -, -, e⟩ := finishPurge_ends env s id
  · rw [e]
  · rw [e]
    rfl
  · rw [e]
    simp only [namespaceEpoch, setPurgeStatus, dropNamespace,
      get?_insert]
    split
    · next ht => simp [ht]
    · rfl

/-- Epochs only grow. -/
theorem Call.next_epoch [Sha256] (c : Call) (t : String) :
    s.namespaceEpoch t ≤ (c.next env s).namespaceEpoch t := by
  by_cases hc : c.onNamespaces = false
  · rw [namespaceEpoch, namespaceEpoch, (c.next_namespaces env s hc).epochs]
  cases c with
  | purgeNamespace request =>
    rw [Call.next, runCall]
    obtain e | e | ⟨-, -, e⟩ := purgeNamespace_ends env s request
    · rw [e]
    · rw [e]
      exact finishPurge_epoch ..
    · rw [e]
      exact finishPurge_epoch (s := s.startPurge request) ..
  | namespacePurgeStatus => exact finishPurge_epoch ..
  | markPurgeTargetDeleted =>
    simp only [Call.next, runCall, Managed.markPurgeTargetDeleted]
    split <;> exact le_rfl
  | markPurgeTargetBlocked => exact le_rfl
  | _ => exact absurd rfl hc

/-- Operations keep their intent, a new one is made in the current epoch, usage rows stay, and a
commit leaves the tenant with a usage row. -/
structure OperationsFollow (s s' : MemoryState) : Prop where
  rows : ∀ t, s.workspaceUsage.contains t = true → s'.workspaceUsage.contains t = true
  kept : ∀ id o, s.logicalOperations.get? id = some o →
    ∃ o', s'.logicalOperations.get? id = some o' ∧ o'.intent = o.intent
  made : ∀ id o', s'.logicalOperations.get? id = some o' →
    (∃ o, s.logicalOperations.get? id = some o ∧ o'.intent = o.intent ∧ (o'.state = .committed →
      o.state = .committed ∨ s'.workspaceUsage.contains o'.tenant = true)) ∨
    (o'.state = .intent ∧ o'.intent.fence.namespaceEpoch = s.namespaceEpoch o'.tenant)

namespace OperationsFollow

theorem contains_insert {t : String} {m : KeyMap String ManagedWorkspaceUsage} :
    (m.insert tenant u).contains t = (decide (t = tenant) || m.contains t) := by
  simp only [contains, get?_insert]
  split <;> simp [*]

theorem of_rows (ho : s'.logicalOperations = s.logicalOperations)
    (hr : ∀ t, s.workspaceUsage.contains t = true → s'.workspaceUsage.contains t = true) :
    OperationsFollow s s' where
  rows := hr
  kept _ o h := ⟨o, ho ▸ h, rfl⟩
  made _ o h := .inl ⟨o, ho ▸ h, rfl, .inl⟩

theorem of_same (h : SameAccounts s s') : OperationsFollow s s' :=
  .of_rows h.logicalOperations fun _ ht => h.workspaceUsage ▸ ht

theorem of_usage (ho : s'.logicalOperations = s.logicalOperations)
    (hu : s'.workspaceUsage = s.workspaceUsage.insert tenant u) : OperationsFollow s s' :=
  .of_rows ho fun t ht => by rw [hu, contains_insert, ht, Bool.or_true]

theorem of_touch {now : Int} (h : s' = s.touchUsage now tenant) : OperationsFollow s s' := by
  subst h
  exact .of_usage rfl rfl

theorem of_change (hf : s.logicalOperations.get? id = some old)
    (ho : s'.logicalOperations = s.logicalOperations.insert id o) (hi : o.intent = old.intent)
    (hr : ∀ t, s.workspaceUsage.contains t = true → s'.workspaceUsage.contains t = true)
    (hc : o.state = .committed → old.state = .committed ∨
      s'.workspaceUsage.contains o.tenant = true) : OperationsFollow s s' where
  rows := hr
  kept id' o' h := by
    rw [ho]
    simp only [get?_insert]
    split
    · next e =>
      rw [e, hf] at h
      cases h
      exact ⟨o, rfl, hi⟩
    · exact ⟨o', h, rfl⟩
  made id' o' h := by
    rw [ho] at h
    obtain ⟨rfl, rfl⟩ | ⟨-, h⟩ := get?_insert_cases h
    · exact .inl ⟨old, hf, hi, hc⟩
    · exact .inl ⟨o', h, rfl, .inl⟩

/-- One operation is settled, with the usage row of its tenant. -/
theorem of_settle (hf : s.logicalOperations.get? id = some old)
    (ho : s'.logicalOperations = s.logicalOperations.insert id o) (hi : o.intent = old.intent)
    (hu : s'.workspaceUsage = s.workspaceUsage.insert old.intent.logical.tenantId u) :
    OperationsFollow s s' := by
  refine .of_change hf ho hi (fun t ht => by rw [hu, contains_insert, ht, Bool.or_true]) fun _ => ?_
  right
  have e : o.tenant = old.intent.logical.tenantId :=
    congrArg (fun i : ManagedLogicalOperationIntent => i.logical.tenantId) hi
  rw [hu, contains_insert, e]
  simp

end OperationsFollow

theorem Commits.follows [Sha256] {a : ObjectAuthority}
    (h : Commits env id o a u s s') : OperationsFollow s s' := by
  obtain ⟨-, ho⟩ | ⟨-, o', hi, -, ho⟩ := h.settles
  · exact .of_usage ho h.workspaceUsage
  · exact .of_settle h.found ho hi h.workspaceUsage

theorem Aborts.follows {proven : Bool} (h : Aborts env id o u proven s s')
    (hf : s.logicalOperations.get? id = some o) : OperationsFollow s s' := by
  cases proven with
  | false => exact .of_usage (h.unproven rfl).1 h.workspaceUsage
  | true =>
    obtain ⟨-, -, o', ho, hi, -⟩ := h.settles rfl
    exact .of_settle hf ho hi h.workspaceUsage

theorem Drops.follows (h : Drops env tenant s s') : OperationsFollow s s' := by
  have hget := h.get?_logicalOperations
  refine ⟨fun t ht => ?_, fun id o ho => ?_, fun id o' ho' => ?_⟩
  · rw [h.workspaceUsage]
    simp only [contains, dropNamespace, get?_modify] at ht ⊢
    split
    · next e => simpa [e] using ht
    · exact ht
  · refine ⟨_, by rw [hget, ho, Option.map_some], ?_⟩
    split <;> rfl
  · rw [hget, Option.map_eq_some_iff] at ho'
    obtain ⟨o, ho, rfl⟩ := ho'
    refine .inl ⟨o, ho, ?_, fun hst => .inl ?_⟩
    · split <;> rfl
    · split at hst <;> exact hst

theorem releaseAllocation_follows (env : CallEnv) (s : MemoryState)
    (ho : s.logicalOperations.get? id = some o) :
    OperationsFollow s (s.releaseAllocation env id o).2 := by
  simp only [releaseAllocation]
  repeat' split
  · exact .of_same (.refl s)
  · exact .of_same (.refl s)
  · exact .of_touch rfl
  · exact .of_settle ho rfl rfl rfl

/-- **Every call keeps the intents of the operations.** -/
theorem Call.next_follows [Sha256] (env : CallEnv) (s : MemoryState) (c : Call) :
    OperationsFollow s (c.next env s) := by
  by_cases ht : c.touchesAccounts = false
  · exact .of_same (c.next_sameAccounts env s ht)
  have hpurge := c.next_purge env s
  cases c with
  | insertLogicalOperation intent =>
    simp only [Call.next, runCall, Outcome.unit, Managed.insertLogicalOperation]
    repeat' split
    all_goals try exact .of_same (.refl s)
    next hfence _ hnone _ =>
    -- the intent of a new operation carries the current epoch
    refine ⟨fun _ h => h, fun id o ho => ?_, fun id o ho => ?_⟩
    · refine ⟨o, ?_, rfl⟩
      rw [setOperation, get?_insert_ne]
      · exact ho
      · rintro rfl
        cases ho.symm.trans hnone
    · obtain ⟨-, rfl⟩ | ⟨-, ho⟩ := get?_insert_cases ho
      · rw [not_not] at hfence
        exact .inr ⟨rfl, congrArg ManagedRouteFence.namespaceEpoch hfence⟩
      · exact .inl ⟨o, ho, rfl, .inl⟩
  | reserveLogicalOperation =>
    simp only [Call.next, runCall, Managed.reserveLogicalOperation]
    split
    · exact .of_same (.refl s)
    next o ho =>
    repeat' split
    all_goals first
      | exact .of_same (.refl s)
      | exact .of_touch rfl
      | exact .of_settle ho rfl rfl rfl
  | recordLogicalUsage =>
    simp only [Call.next, runCall, Managed.recordLogicalUsage]
    repeat' split
    all_goals try exact .of_same (.refl s)
    next o ho _ _ => exact .of_change ho rfl rfl (fun _ h => h) .inl
  | transitionLogicalOperation id source target =>
    simp only [Call.next, runCall, Outcome.unit, Managed.transitionLogicalOperation]
    split
    · exact .of_same (.refl s)
    next hv =>
    split
    · exact .of_same (.refl s)
    next o ho =>
    split
    · exact .of_same (.refl s)
    refine .of_change ho rfl rfl (fun _ h => h) fun hst => ?_
    -- no transition of this call ends in a commit
    have hact := (active_of_validLogicalTransition (by simpa using hv)).2
    rw [show target = .committed from hst] at hact
    cases hact
  | commitLogicalPut id authority allocated =>
    obtain e | ⟨tenant, e⟩ | ⟨-, -, o, u, h⟩ := commitLogicalPut_cases env s id authority allocated
    · exact .of_same (.of_eq e)
    · exact .of_touch e
    · exact h.follows
  | commitLogicalDelete id placement =>
    obtain e | ⟨tenant, e⟩ | ⟨o, u, h⟩ := commitLogicalDelete_cases env s id placement
    · exact .of_same (.of_eq e)
    · exact .of_touch e
    · exact h.follows
  | proveLogicalAbort id error physical =>
    obtain ⟨e, -⟩ | ⟨o, u, proven, ho, -, -, h, -⟩ :=
      proveLogicalAbort_cases env s id error physical
    · exact .of_same (.of_eq e)
    · exact h.follows ho
  | forgetPhysicalVersion target =>
    simp only [Call.next, runCall, Managed.forgetPhysicalVersion]
    split
    · exact .of_same ⟨rfl, rfl⟩
    split
    · exact .of_same ⟨rfl, rfl⟩
    · next hf =>
      obtain ⟨hr, hk, hm⟩ := releaseAllocation_follows env
        { s with physicalVersions := s.physicalVersions.filter (· != target) }
        (findEntry_some hf).1
      exact ⟨hr, hk, hm⟩
  | purgeNamespace | namespacePurgeStatus =>
    obtain ⟨-, h⟩ | ⟨tenant, h⟩ := hpurge rfl
    · exact .of_same h
    · exact h.follows
  | _ => exact absurd rfl ht

end Operations

/-! ### What was handed out before -/

theorem SameContents.refl (s : MemoryState) : SameContents s s := by
  constructor <;> first | rfl | exact KeyMap.SameEntries.refl _

/-- Looking up a usage row that is there changes nothing. -/
theorem SameContents.touch {s : MemoryState} {t : String} (now : Int)
    (h : s.workspaceUsage.contains t = true) : SameContents s (s.touchUsage now t) := by
  obtain ⟨u, hu⟩ := Option.isSome_iff_exists.mp h
  have hrow : s.usageRow now t = u := by simp [usageRow, hu]
  have hs : s.workspaceUsage.SameEntries (s.touchUsage now t).workspaceUsage := by
    rw [touchUsage, hrow]
    exact .insert_self hu
  constructor <;> first | exact hs | rfl | exact KeyMap.SameEntries.refl _

section Operations

variable [Sha256] {env : CallEnv} {s s' : MemoryState} {t : String} {id : Uuid}

/-- Operations carry an epoch that their tenant has reached, and a committed one has a usage row. -/
def Stamped (s : MemoryState) : Prop :=
  ∀ id o, s.logicalOperations.get? id = some o →
    o.intent.fence.namespaceEpoch ≤ s.namespaceEpoch o.tenant ∧
    (o.state = .committed → s.workspaceUsage.contains o.tenant = true)

/-- The operation was made in an epoch that its tenant has left. -/
def Behind (s : MemoryState) (t : String) (id : Uuid) : Prop :=
  ∃ o, s.logicalOperations.get? id = some o ∧ o.tenant = t ∧
    o.intent.fence.namespaceEpoch < s.namespaceEpoch t

omit [Sha256] in
theorem tenant_congr {o o' : ManagedLogicalOperation} (h : o'.intent = o.intent) :
    o'.tenant = o.tenant :=
  congrArg (fun i : ManagedLogicalOperationIntent => i.logical.tenantId) h

theorem Stamped.next (h : Stamped s) (c : Call) : Stamped (c.next env s) := by
  intro id o' ho'
  have hfol := c.next_follows env s
  rcases hfol.made id o' ho' with ⟨o, ho, hi, hst⟩ | ⟨hst, hf⟩
  · obtain ⟨hle, hrow⟩ := h id o ho
    refine ⟨?_, fun hc => ?_⟩
    · rw [hi, tenant_congr hi]
      exact hle.trans (c.next_epoch o.tenant)
    · rcases hst hc with hc | hc
      · rw [tenant_congr hi]
        exact hfol.rows _ (hrow hc)
      · exact hc
  · refine ⟨hf ▸ c.next_epoch _, fun hc => ?_⟩
    rw [hst] at hc
    cases hc

theorem Behind.next (h : Behind s t id) (c : Call) : Behind (c.next env s) t id := by
  obtain ⟨o, ho, rfl, hlt⟩ := h
  obtain ⟨o', ho', hi⟩ := (c.next_follows env s).kept id o ho
  exact ⟨o', ho', tenant_congr hi, hi ▸ hlt.trans_le (c.next_epoch o.tenant)⟩

/-- The call that completes a purge leaves the operations of the tenant behind. -/
theorem Behind.of_completes {o : ManagedLogicalOperation} (h : Stamped s)
    (he : (c.next env s).namespaceEpoch o.tenant = s.namespaceEpoch o.tenant + 1)
    (ho : (c.next env s).logicalOperations.get? id = some o) :
    Behind (c.next env s) o.tenant id := by
  refine ⟨o, ho, rfl, ?_⟩
  rw [he, Nat.lt_succ_iff]
  rcases (c.next_follows env s).made id o ho with ⟨old, hold, hi, -⟩ | ⟨-, hf⟩
  · rw [hi, tenant_congr hi]
    exact (h id old hold).1
  · exact hf.le

/-- The operation that a reservation is for. -/
def Call.reservesOperation : Call → Option Uuid
  | .reserveLogicalOperation id _ => some id
  | _ => none

/-- **An operation that is left behind changes nothing.** -/
theorem Behind.inert (h : Behind s t id) (hs : Stamped s)
    (hc : c.reservesOperation = some id ∨ c.commitsOperation = some id) :
    SameContents s (c.next env s) := by
  obtain ⟨o, ho, rfl, hlt⟩ := h
  have hr : s.routeChanged o.intent = true := by
    have hne : s.namespaceEpoch o.intent.logical.tenantId ≠ o.intent.fence.namespaceEpoch :=
      Nat.ne_of_gt hlt
    simp [routeChanged, hne]
  rcases hc with hc | hc
  · cases c with
    | reserveLogicalOperation =>
      cases hc
      rw [Call.next, runCall, reserve_rerouted ho hr]
      exact .refl s
    | _ => cases hc
  · obtain e | ⟨hst, e⟩ := commit_rerouted hc ho hr
    · rw [e]
      exact .refl s
    · rw [e]
      exact .touch _ ((hs id o ho).2 hst)

theorem stamped_of_reach {h : LeaseHistory} (r : Reach LeaseInit LeaseStep h) :
    Stamped h.state := by
  refine r.invariant (I := fun h => Stamped h.state) ?_ ?_
  · rintro h rfl id o ho
    cases ho
  · rintro h e h' - hst hs
    cases hs with
    | call => exact hst.next _
    | rehash hs =>
      intro id o ho
      obtain ⟨hle, hrow⟩ := hst id o ((hs.logicalOperations.get?_eq id).trans ho)
      refine ⟨?_, fun hc => ?_⟩
      · rw [namespaceEpoch, ← hs.namespaceEpochs.get?_eq]
        exact hle
      · rw [contains, ← hs.workspaceUsage.get?_eq]
        exact hrow hc

end Operations

/-! ### Leases held before -/

section Leases

variable [Sha256] {env : CallEnv} {s : MemoryState} {h h' h₀ : LeaseHistory} {e : Event} {id : Uuid}
  {t : String}

/-- A token that no leased row has changes nothing. -/
theorem Call.next_of_unleased (hc : c.repairToken = some tok)
    (hn : ∀ k, ¬ LeasedUnder s.repairs k tok) : c.next env s = s := by
  have hrow : s.leasedRow env.now tok = none := by
    cases hl : s.leasedRow env.now tok with
    | none => rfl
    | some row => exact absurd (leasedUnder_of_leasedRow hl) (hn row.1)
  cases c with
  | renewRepair =>
    cases hc
    simp only [Call.next, runCall, Outcome.unit, Managed.renewRepair, hrow]
  | failRepair =>
    cases hc
    simp only [Call.next, runCall, Outcome.unit, Managed.failRepair, hrow]
  | completeRepair repair =>
    simp only [Call.next, runCall, Managed.completeRepair]
    split
    · rfl
    next hid =>
    split
    · rfl
    split
    · rfl
    next stored status hstored =>
    split
    · rfl
    next hheld =>
    -- the row that passes the checks is leased under the token
    simp only [not_or, not_not] at hid hheld
    rw [hheld.1] at hstored
    rw [Call.repairToken, hid] at hc
    exact absurd ⟨stored, hstored, hheld.2.1.trans hc⟩ (hn repair.repairId)
  | _ => cases hc

/-- A lease whose intent has another token, or none, changes nothing. -/
theorem Call.next_of_unheld (hc : c.writeLease = some lease)
    (hn : s.physicalWriteTokens.get? lease.intentId ≠ some lease.token) : c.next env s = s := by
  have hheld : s.leaseHeld env.now lease = false := by
    simp only [leaseHeld, Bool.and_eq_false_iff]
    exact .inl (.inl (beq_eq_false_iff_ne.mpr hn))
  cases c with
  | renewPhysicalWriteIntent | abortPhysicalWrite | blockPhysicalWrite =>
    cases hc
    simp [Call.next, runCall, Outcome.unit, Managed.renewPhysicalWriteIntent,
      Managed.abortPhysicalWrite, Managed.blockPhysicalWrite, hheld]
  | commitPhysicalWrite =>
    cases hc
    simp only [Call.next, runCall, Managed.commitPhysicalWrite, hheld]
    split <;> rfl
  | _ => cases hc

/-- A row leased under a token already issued was leased under it before, for the same object. -/
theorem LeaseStep.leased_before (hs : LeaseStep h e h')
    (hm : (j, tok) ∈ h.repairs) (hk : h'.state.repairs.get? k = some (r', .leased))
    (ht : r'.leaseToken = some tok) :
    ∃ r, h.state.repairs.get? k = some (r, .leased) ∧ r.leaseToken = some tok ∧
      r.logical = r'.logical := by
  cases hs with
  | rehash hs => exact ⟨r', (hs.repairs.get?_eq k).trans hk, ht, rfl⟩
  | @call env c hn =>
    by_cases hc : ∀ owner deadline limit, c ≠ .claimRepairs owner deadline limit
    · obtain ⟨r, hr, htok, hlog⟩ := Call.next_leases hc k r' hk
      exact ⟨r, hr, htok.symm.trans ht, hlog.symm⟩
    · simp only [not_forall, not_not] at hc
      obtain ⟨owner, deadline, limit, rfl⟩ := hc
      simp only [LeaseHistory.next, Call.next] at hk
      rcases claimRepairs_row k with ⟨repair, hc, hrow⟩ | ⟨-, hrow⟩
      · -- the token of a row that has just been claimed is new
        cases hk.symm.trans hrow
        obtain ⟨htok, n, e⟩ := claims_token hc
        cases ht.symm.trans htok
        exact absurd (e ▸ hm) (hn.repairs j n)
      · exact ⟨r', hrow ▸ hk, ht, rfl⟩

/-- The tenant of a write intent. -/
def MemoryState.writeTenant (s : MemoryState) (id : Uuid) : Option String :=
  (s.physicalWriteIntents.get? id).map (·.tenantId)

/-- A call with a lease keeps the intents and their tokens, or drops the intent of the lease. -/
theorem Call.next_intents (env : CallEnv) (s : MemoryState) (c : Call)
    (hc : c.writeLease = some lease) :
    ((c.next env s).physicalWriteTokens = s.physicalWriteTokens ∧
      (c.next env s).physicalWriteIntents = s.physicalWriteIntents) ∨
    ((c.next env s).physicalWriteTokens = s.physicalWriteTokens.erase lease.intentId ∧
      (c.next env s).physicalWriteIntents = s.physicalWriteIntents.erase lease.intentId) := by
  cases c with
  | renewPhysicalWriteIntent | blockPhysicalWrite =>
    simp only [Call.next, runCall, Managed.renewPhysicalWriteIntent, Managed.blockPhysicalWrite]
    split <;> exact .inl ⟨rfl, rfl⟩
  | commitPhysicalWrite =>
    cases hc
    simp only [Call.next, runCall, Outcome.unit, Managed.commitPhysicalWrite]
    split
    · exact .inl ⟨rfl, rfl⟩
    split
    · exact .inl ⟨rfl, rfl⟩
    split
    · exact .inl ⟨rfl, rfl⟩
    · exact .inr ⟨rfl, rfl⟩
  | abortPhysicalWrite =>
    cases hc
    simp only [Call.next, runCall, Managed.abortPhysicalWrite]
    split
    · exact .inl ⟨rfl, rfl⟩
    · exact .inr ⟨rfl, rfl⟩
  | _ => cases hc

/-- An intent that has a token had it before, for the same tenant, or has just been given it. -/
theorem Call.next_held (c : Call)
    (ht : (c.next env s).physicalWriteTokens.get? id = some tok) (hne : tok ≠ env.uuid 0) :
    s.physicalWriteTokens.get? id = some tok ∧
      (c.next env s).writeTenant id = s.writeTenant id := by
  by_cases hw : c.onWrites = false
  · have hsame := c.next_writes env s hw
    rw [hsame.tokens] at ht
    simp only [writeTenant, hsame.intents]
    exact ⟨ht, trivial⟩
  cases hl : c.writeLease with
  | some =>
    simp only [writeTenant]
    obtain ⟨e, e'⟩ | ⟨e, e'⟩ := c.next_intents env s hl
    · rw [e] at ht
      exact ⟨ht, by rw [e']⟩
    · rw [e] at ht
      obtain ⟨hid, ht⟩ := get?_erase_cases ht
      exact ⟨ht, by rw [e', get?_erase, if_neg hid]⟩
  | none =>
    cases c with
    | beginPhysicalWrite intent =>
      simp only [Call.next, runCall, Outcome.unit] at ht ⊢
      obtain ⟨e, h⟩ | ⟨-, token, -, -, h⟩ | ⟨-, -, h⟩ := beginPhysicalWrite_cases env s intent
      · rw [h] at ht ⊢
        exact ⟨ht, rfl⟩
      · rw [h] at ht ⊢
        exact ⟨ht, rfl⟩
      · rw [h] at ht ⊢
        obtain ⟨-, e⟩ | ⟨hid, ht⟩ := get?_insert_cases ht
        · exact absurd e.symm hne
        · exact ⟨ht, by rw [writeTenant, get?_insert_ne _ _ hid, writeTenant]⟩
    | claimExpiredPhysicalWriteIntent id' owner deadline =>
      simp only [Call.next, runCall, Outcome.unit] at ht ⊢
      obtain ⟨h, -⟩ | ⟨epoch, intent, -, -, h⟩ :=
        claimExpiredPhysicalWriteIntent_cases env s id' owner deadline
      · rw [h] at ht ⊢
        exact ⟨ht, rfl⟩
      · rw [h] at ht ⊢
        obtain ⟨-, e⟩ | ⟨hid, ht⟩ := get?_insert_cases ht
        · exact absurd e.symm hne
        · exact ⟨ht, by rw [writeTenant, get?_insert_ne _ _ hid, writeTenant]⟩
    | renewPhysicalWriteIntent | commitPhysicalWrite | abortPhysicalWrite
    | blockPhysicalWrite => cases hl
    | _ => exact absurd rfl hw

theorem LeaseStep.held_before (hs : LeaseStep h e h') (hm : (j, tok) ∈ h.writes)
    (ht : h'.state.physicalWriteTokens.get? id = some tok) :
    h.state.physicalWriteTokens.get? id = some tok ∧
      h'.state.writeTenant id = h.state.writeTenant id := by
  cases hs with
  | rehash hs =>
    refine ⟨(hs.physicalWriteTokens.get?_eq id).trans ht, ?_⟩
    simp only [writeTenant, hs.physicalWriteIntents.get?_eq]
  | @call env c hn =>
    refine c.next_held ht ?_
    rintro rfl
    exact hn.writes j 0 hm

theorem LeaseStep.logs (hs : LeaseStep h e h') : h.repairs ⊆ h'.repairs ∧ h.writes ⊆ h'.writes := by
  cases hs with
  | rehash => exact ⟨fun _ h => h, fun _ h => h⟩
  | call => exact ⟨List.subset_append_right .., List.subset_append_right ..⟩

/-- A run leads from one history to the other. -/
def LeaseHistory.Later (h h' : LeaseHistory) : Prop := Reach (· = h) LeaseStep h'

theorem LeaseHistory.Later.logs (p : h.Later h') :
    h.repairs ⊆ h'.repairs ∧ h.writes ⊆ h'.writes := by
  induction p with
  | init e => exact e ▸ ⟨fun _ h => h, fun _ h => h⟩
  | step _ hs ih => exact ⟨fun _ h => hs.logs.1 (ih.1 h), fun _ h => hs.logs.2 (ih.2 h)⟩

theorem LeaseHistory.Later.leased_before (p : h.Later h')
    (hm : (j, tok) ∈ h.repairs) (hk : h'.state.repairs.get? k = some (r', .leased))
    (ht : r'.leaseToken = some tok) :
    ∃ r, h.state.repairs.get? k = some (r, .leased) ∧ r.leaseToken = some tok ∧
      r.logical = r'.logical := by
  induction p generalizing r' with
  | init e => exact ⟨r', e ▸ hk, ht, rfl⟩
  | step p hs ih =>
    obtain ⟨r, hr, htok, hlog⟩ := hs.leased_before (Later.logs p |>.1 hm) hk ht
    obtain ⟨r₀, hr₀, htok₀, hlog₀⟩ := ih hr htok
    exact ⟨r₀, hr₀, htok₀, hlog₀.trans hlog⟩

theorem LeaseHistory.Later.held_before (p : h.Later h') (hm : (j, tok) ∈ h.writes)
    (ht : h'.state.physicalWriteTokens.get? id = some tok) :
    h.state.physicalWriteTokens.get? id = some tok ∧
      h'.state.writeTenant id = h.state.writeTenant id := by
  induction p with
  | init e => exact ⟨e ▸ ht, e ▸ rfl⟩
  | step p hs ih =>
    obtain ⟨hold, htenant⟩ := hs.held_before (Later.logs p |>.2 hm) ht
    exact (ih hold).imp_right htenant.trans

/-- The token of a repair of the tenant that is leased. -/
def MemoryState.LeasesRepair (s : MemoryState) (t : String) (tok : Uuid) : Prop :=
  ∃ k r, s.repairs.get? k = some (r, .leased) ∧ r.leaseToken = some tok ∧ r.logical.tenantId = t

/-- The lease of a write intent of the tenant. -/
def MemoryState.LeasesWrite (s : MemoryState) (t : String) (lease : PhysicalWriteLease) : Prop :=
  s.physicalWriteTokens.get? lease.intentId = some lease.token ∧
    s.writeTenant lease.intentId = some t

/-- A repair leased to the tenant before it was emptied is leased to nobody afterwards. -/
theorem unleased_of_emptied (r₀ : Reach LeaseInit LeaseStep h₀)
    (hl : h₀.state.LeasesRepair t tok) (p : h₀.Later h) (he : Emptied h.state t) (p' : h.Later h')
    (k : Uuid) : ¬ LeasedUnder h'.state.repairs k tok := by
  obtain ⟨j, r, hj, hjtok, hjt⟩ := hl
  have hf := fenced_of_reach r₀
  have hcur := hf.leased j tok ⟨r, hj, hjtok⟩
  have hm := LeaseLog.mem_of_current hcur
  rintro ⟨r', hk, htok⟩
  obtain ⟨r₁, hk₁, htok₁, -⟩ := p'.leased_before (p.logs.1 hm) hk htok
  obtain ⟨r₂, hk₂, htok₂, hlog⟩ := p.leased_before hm hk₁ htok₁
  -- the token belongs to one repair, which is the tenant's
  have hkj : k = j :=
    hf.repairs.owner k j tok (LeaseLog.mem_of_current (hf.leased k tok ⟨r₂, hk₂, htok₂⟩)) hm
  rw [hkj, hj] at hk₂
  cases hk₂
  exact he.repairs k _ hk₁ (by rw [← hlog]; exact hjt)

/-- A write intent leased to the tenant before it was emptied has another token afterwards, or none.
-/
theorem unheld_of_emptied (r₀ : Reach LeaseInit LeaseStep h₀)
    (hl : h₀.state.LeasesWrite t lease) (p : h₀.Later h) (he : Emptied h.state t)
    (p' : h.Later h') : h'.state.physicalWriteTokens.get? lease.intentId ≠ some lease.token := by
  intro ht
  have hm := LeaseLog.mem_of_current ((fenced_of_reach r₀).held _ _ hl.1)
  have hold := (p'.held_before (p.logs.2 hm) ht).1
  have htenant := (p.held_before hm hold).2.trans hl.2
  obtain ⟨i, hi, hit⟩ := Option.map_eq_some_iff.mp htenant
  exact he.writes _ i hi hit

theorem Behind.later (hb : Behind h.state t id) (p : h.Later h') : Behind h'.state t id := by
  induction p with
  | init e => exact e ▸ hb
  | step _ hs ih =>
    cases hs with
    | call => exact ih.next _
    | rehash hs =>
      obtain ⟨o, ho, ht, hlt⟩ := ih
      refine ⟨o, (hs.logicalOperations.get?_eq id).symm.trans ho, ht, ?_⟩
      rwa [namespaceEpoch, ← hs.namespaceEpochs.get?_eq]

theorem LeaseHistory.Later.run {script : Script} (hs : Script.newTokens h script = true) :
    h.Later (h.run script) := by
  have start : Reach (· = h) LeaseStep h := .init rfl
  exact reach_run start hs

/-- **Purge completeness and fencing.**  While the tenant is fenced no call adds to it and no commit
finishes.  The step `h → h'` after which the purge is complete leaves the tenant empty.  In every
later history `h''` the operations that the tenant had then, and the leases of its repairs and write
intents held in any history `h₀` before, change nothing. -/
theorem purge_empties_and_fences {h'' : LeaseHistory} {p : Uuid} (r : Reach LeaseInit LeaseStep h)
    (hs : LeaseStep h e h') (hn : ¬ h.state.PurgeComplete p t) (hc : h'.state.PurgeComplete p t)
    (later : h'.Later h'') :
    (∀ s : MemoryState, s.fenced t = true →
      (∀ env (c : Call), c.addsFor s = some t → c.result env s ≠ .ok ()) ∧
      (∀ env (c : Call) id o, c.commitsOperation = some id → s.logicalOperations.get? id = some o →
        o.tenant = t → o.state ≠ .committed → c.next env s = s)) ∧
    Emptied h'.state t ∧
    (∀ env (c : Call) id o, c.reservesOperation = some id ∨ c.commitsOperation = some id →
      h'.state.logicalOperations.get? id = some o → o.tenant = t →
      SameContents h''.state (c.next env h''.state)) ∧
    (∀ h₀ : LeaseHistory, Reach LeaseInit LeaseStep h₀ → h₀.Later h →
      (∀ env (c : Call) tok, h₀.state.LeasesRepair t tok → c.repairToken = some tok →
        c.next env h''.state = h''.state) ∧
      (∀ env (c : Call) lease, h₀.state.LeasesWrite t lease → c.writeLease = some lease →
        c.next env h''.state = h''.state)) := by
  -- only a call completes a purge
  have hends : Emptied h'.state t ∧
      ∀ id o, h'.state.logicalOperations.get? id = some o → o.tenant = t →
        Behind h'.state t id := by
    cases hs with
    | call =>
      obtain ⟨hempty, hepoch⟩ := Call.next_completes hc hn
      refine ⟨hempty, ?_⟩
      rintro id o ho rfl
      exact .of_completes (stamped_of_reach r) hepoch ho
    | rehash hs =>
      obtain ⟨purge, n, hp, ht, hst⟩ := hc
      exact absurd ⟨purge, n, (hs.purges.get?_eq p).trans hp, ht, hst⟩ hn
  have hstamped := stamped_of_reach ((r.step hs).trans later)
  refine ⟨fun s hf => ⟨fun env c hadds => Call.fenced_result hf hadds, ?_⟩, hends.1, ?_, ?_⟩
  · rintro env c id o hcommit ho rfl hst
    exact (commit_rerouted hcommit ho (routeChanged_of_fenced hf)).resolve_right
      fun hcommitted => hst hcommitted.1
  · intro env c id o hcall ho ht
    exact ((hends.2 id o ho ht).later later).inert hstamped hcall
  · intro h₀ r₀ before
    have through : h₀.Later h' := before.step hs
    refine ⟨fun env c tok hl hcall => ?_, fun env c lease hl hcall => ?_⟩
    · exact Call.next_of_unleased hcall (unleased_of_emptied r₀ hl through hends.1 later)
    · exact Call.next_of_unheld hcall (unheld_of_emptied r₀ hl through hends.1 later)

end Leases

/-! ### A run -/

/-- An operation, a version and a published object that waits for its replica; the repair is leased
under the token 60, and a write intent under 70. -/
def heldScript : Script :=
  [(0, 10, .insertLogicalOperation sampleIntent),
   (1, 20, .reserveLogicalOperation ⟨101⟩ 64),
   (2, 30, .beginPhysicalWrite { sampleWrite with intentId := ⟨104⟩ }),
   (3, 40, .commitPhysicalWrite ⟨⟨104⟩, 1, "gateway", ⟨30⟩⟩ [] (some "v")),
   (4, 50, .publish { sampleAuthority with replicaStatus := .repairPending } none),
   (5, 60, .claimRepairs "worker" 10000000 1),
   (6, 70, .beginPhysicalWrite sampleWrite)]

/-- The write and the operation are given up, and a purge deletes the version. -/
def drainScript : Script :=
  [(7, 80, .abortPhysicalWrite ⟨⟨103⟩, 1, "gateway", ⟨70⟩⟩),
   (8, 80, .proveLogicalAbort ⟨101⟩ "aborted" none),
   (9, 80, .purgeNamespace ⟨"t", ⟨200⟩⟩),
   (10, 80, .markPurgeTargetDeleted ⟨"t", ⟨200⟩⟩
      (({ sampleWrite with intentId := ⟨104⟩ }).target ⟨⟨104⟩, 1, "gateway", ⟨30⟩⟩ (some "v")))]

theorem drained_run_is_fenced : letI := sampleSha256
    ∃ h h' : LeaseHistory, ¬ h.state.PurgeComplete ⟨200⟩ "t" ∧ h'.state.PurgeComplete ⟨200⟩ "t" ∧
      Emptied h'.state "t" ∧
      SameContents h'.state
        ((Call.reserveLogicalOperation ⟨101⟩ 64).next (.counting 12 90) h'.state) ∧
      (Call.failRepair ⟨60⟩).next (.counting 12 90) h'.state = h'.state ∧
      (Call.abortPhysicalWrite ⟨⟨103⟩, 1, "gateway", ⟨70⟩⟩).next (.counting 12 90) h'.state =
        h'.state := by
  let _ := sampleSha256
  let h₀ := (⟨.new, [], []⟩ : LeaseHistory).run heldScript
  let h := h₀.run drainScript
  let h' := h.next (.counting 11 80) (.namespacePurgeStatus ⟨"t", ⟨200⟩⟩)
  have r₀ : Reach LeaseInit LeaseStep h₀ := reach_run (.init rfl) (by decide +kernel)
  have drain : Script.newTokens h₀ drainScript = true := by decide +kernel
  have step : LeaseStep h (.call (.counting 11 80) _) h' :=
    .call (CallEnv.counting_newTokens 11 (by decide +kernel) (by decide +kernel))
  have running : h.state.purges.get? ⟨200⟩ = some ⟨"t", .running, 1⟩ := by decide +kernel
  have complete : h'.state.purges.get? ⟨200⟩ = some ⟨"t", .complete 1, 1⟩ := by decide +kernel
  have operation : (h'.state.logicalOperations.get? ⟨101⟩).map (·.tenant) = some "t" := by
    decide +kernel
  have repair : (h₀.state.repairs.get? ⟨50⟩).map
      (fun r => (r.2, r.1.leaseToken, r.1.logical.tenantId)) = some (.leased, some ⟨60⟩, "t") := by
    decide +kernel
  have token : h₀.state.physicalWriteTokens.get? ⟨103⟩ = some ⟨70⟩ := by decide +kernel
  have tenant : h₀.state.writeTenant ⟨103⟩ = some "t" := by decide +kernel
  have before : h₀.Later h := .run drain
  have r : Reach LeaseInit LeaseStep h := r₀.trans before
  clear_value h₀ h h'
  have hn : ¬ h.state.PurgeComplete ⟨200⟩ "t" := by
    rintro ⟨purge, n, hp, -, hst⟩
    cases running.symm.trans hp
    cases hst
  have hc : h'.state.PurgeComplete ⟨200⟩ "t" := ⟨_, 1, complete, rfl, rfl⟩
  obtain ⟨o, ho, ht⟩ := Option.map_eq_some_iff.mp operation
  obtain ⟨⟨row, status⟩, hrow, hfields⟩ := Option.map_eq_some_iff.mp repair
  simp only [Prod.mk.injEq] at hfields
  obtain ⟨rfl, htoken, htenant⟩ := hfields
  obtain ⟨-, hempty, hops, hleases⟩ := purge_empties_and_fences r step hn hc (.init rfl)
  obtain ⟨hrepairs, hwrites⟩ := hleases h₀ r₀ before
  exact ⟨h, h', hn, hc, hempty, hops _ _ _ o (.inl rfl) ho ht,
    hrepairs _ _ _ ⟨_, row, hrow, htoken, htenant⟩ rfl,
      hwrites _ _ ⟨⟨103⟩, 1, "gateway", ⟨70⟩⟩ ⟨token, tenant⟩ rfl⟩

end S4.Managed
