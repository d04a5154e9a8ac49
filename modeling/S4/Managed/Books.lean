import S4.Managed.Frames

/-!
# Managed — Books

The accounts of a tenant are spread over two tables.  A usage row holds the active operation, the
bytes reserved for it, the bytes allocated at the providers and the visible bytes; an operation row
holds what the operation has reserved, committed and released.  `Accounted` says how they agree: the
active operation is the tenant's one unfinished operation that has been reserved, the reserved bytes
are its reservation, the allocated bytes are what the operations have committed and not released,
and both quotas hold.

A call changes at most one operation and the usage row of its tenant, or drops a tenant.  `Balanced`
is the condition on such a change, stated of the two rows alone, and `Books.post` the lemma that a
balanced change keeps the books; every call below is a balanced change (`Call.next_books`).
-/

namespace S4.Managed

open Lib MemoryState KeyMap

/-! ### Accounts -/

/-- The counters of a usage row. -/
structure Account where
  active : Option Uuid
  reserved : Nat
  physical : Nat
  visible : Nat
  limit : Nat
  headroom : Nat

def ManagedWorkspaceUsage.account (u : ManagedWorkspaceUsage) : Account where
  active := u.activeOperationId
  reserved := u.reservedBytes
  physical := u.physicalAllocatedBytes
  visible := u.visibleLogicalBytes
  limit := u.visibleLimitBytes
  headroom := u.replacementHeadroomBytes

/-- Has the operation been reserved, and is it unfinished? -/
def ManagedLogicalOperationState.active : ManagedLogicalOperationState → Bool
  | .open => true
  | .completing => true
  | .commitUnknown => true
  | _ => false

/-- The bytes that the operation has committed and not released. -/
def ManagedLogicalOperation.allocation (o : ManagedLogicalOperation) : Nat :=
  o.committedPhysicalBytes - o.releasedPhysicalBytes

/-- The tenant of the operation. -/
def ManagedLogicalOperation.tenant (o : ManagedLogicalOperation) : String :=
  o.intent.logical.tenantId

variable {u : ManagedWorkspaceUsage} {s₁ : MemoryState} {derived : Nat}
  {o : ManagedLogicalOperation}

namespace MemoryState

/-- The tenant's account: that of its usage row, or the empty one. -/
def account (s : MemoryState) (t : String) : Account :=
  (s.workspaceUsage.get? t).elim (ManagedWorkspaceUsage.initial 0 t).account (·.account)

/-- The operation `id` of the tenant is `Open`, `Completing` or `CommitUnknown`. -/
def Active (s : MemoryState) (t : String) (id : Uuid) : Prop :=
  ∃ o, s.logicalOperations.get? id = some o ∧ o.tenant = t ∧ o.state.active = true

/-- The bytes that the tenant's operations have committed and not released. -/
def allocated (s : MemoryState) (t : String) : Nat :=
  s.logicalOperations.sumBy fun _ o => if o.tenant = t then o.allocation else 0

variable {s s' : MemoryState} {t tenant : String} {id : Uuid} {o : ManagedLogicalOperation}

theorem account_usageRow (now : Int) : (s.usageRow now t).account = s.account t := by
  simp only [usageRow, account]
  cases s.workspaceUsage.get? t <;> rfl

theorem account_insert (h : s'.workspaceUsage = s.workspaceUsage.insert tenant u) (t : String) :
    s'.account t = if t = tenant then u.account else s.account t := by
  simp only [account, h, get?_insert]
  split <;> rfl

theorem active_insert {id' : Uuid} (h : s'.logicalOperations = s.logicalOperations.insert id o) :
    s'.Active t id' ↔
      if id' = id then o.tenant = t ∧ o.state.active = true else s.Active t id' := by
  simp only [Active, h, get?_insert]
  split <;> simp

theorem allocated_insert (h : s'.logicalOperations = s.logicalOperations.insert id o)
    (hold : ∀ old, s.logicalOperations.get? id = some old → old.tenant = o.tenant) (t : String) :
    s'.allocated t + (if o.tenant = t then
        (s.logicalOperations.get? id).elim 0 (·.allocation) else 0) =
      s.allocated t + (if o.tenant = t then o.allocation else 0) := by
  have hsum := sumBy_insert s.logicalOperations id o
    fun _ o => if o.tenant = t then o.allocation else 0
  have he : (s.logicalOperations.get? id).elim 0
        (fun o => if o.tenant = t then o.allocation else 0) =
      if o.tenant = t then (s.logicalOperations.get? id).elim 0 (·.allocation) else 0 := by
    cases ho : s.logicalOperations.get? id with
    | none => simp
    | some old => simp [hold old ho]
  rw [he] at hsum
  simp only [allocated, h]
  exact hsum

end MemoryState

/-- The account of a tenant agrees with the tenant's operations, and keeps within its quotas. -/
structure Accounted (s : MemoryState) (t : String) (a : Account) : Prop where
  active : ∀ id, a.active = some id ↔ s.Active t id
  reserved : ∀ id o, a.active = some id → s.logicalOperations.get? id = some o →
    a.reserved = o.reservedPhysicalBytes
  unreserved : a.active = none → a.reserved = 0
  physical : a.physical = s.allocated t
  quota : a.physical + a.reserved ≤ a.limit + a.headroom
  visible : a.visible ≤ a.limit

/-- What the counters of an operation keep to: nothing is committed before the operation is
finished, nor reserved before it is open. -/
structure ManagedLogicalOperation.Sound (o : ManagedLogicalOperation) : Prop where
  released : o.releasedPhysicalBytes ≤ o.committedPhysicalBytes
  uncommitted : o.state.terminal = false → o.committedPhysicalBytes = 0
  unreserved : o.state = .intent → o.reservedPhysicalBytes = 0

/-- The books of all tenants are in order, under the limits of the code. -/
structure Books (s : MemoryState) : Prop where
  tenants : ∀ t, Accounted s t (s.account t)
  limits : ∀ t, (s.account t).limit = managedVisibleLimitBytes ∧
    (s.account t).headroom = managedReplacementHeadroomBytes
  sound : ∀ id o, s.logicalOperations.get? id = some o → o.Sound

/-! ### Balanced changes -/

/-- A change of the operation `id` from `old` to `o`, and of its tenant's account from `a` to `a'`,
that keeps the two in agreement. -/
structure Balanced (id : Uuid) (old : Option ManagedLogicalOperation) (o : ManagedLogicalOperation)
    (a a' : Account) : Prop where
  tenant : ∀ o', old = some o' → o'.tenant = o.tenant
  sound : o.Sound
  free : o.state.active = true → a.active = none ∨ a.active = some id
  active : a'.active =
    if o.state.active then some id else if a.active = some id then none else a.active
  reserved : a'.reserved =
    if o.state.active then o.reservedPhysicalBytes
    else if a.active = some id then 0 else a.reserved
  physical : a'.physical + old.elim 0 (·.allocation) = a.physical + o.allocation
  limits : a'.limit = a.limit ∧ a'.headroom = a.headroom
  quota : a'.physical + a'.reserved ≤ a'.limit + a'.headroom
  visible : a'.visible ≤ a'.limit

section Post

variable {s s' : MemoryState} {id : Uuid} {o : ManagedLogicalOperation} {b : Account}

theorem Balanced.accounted (h : Accounted s o.tenant (s.account o.tenant))
    (hb : Balanced id (s.logicalOperations.get? id) o (s.account o.tenant) b)
    (ho : s'.logicalOperations = s.logicalOperations.insert id o) : Accounted s' o.tenant b := by
  have hact : ∀ id', b.active = some id' ↔ s'.Active o.tenant id' := by
    intro id'
    rw [active_insert ho, hb.active]
    by_cases hst : o.state.active = true
    · rw [if_pos hst]
      by_cases e : id' = id
      · simp [e, hst]
      have hfree : ¬ s.Active o.tenant id' := by
        rw [← h.active id']
        rcases hb.free hst with hn | hn
        · simp [hn]
        · simp [hn, Ne.symm e]
      simp [e, Ne.symm e, hfree]
    · rw [if_neg hst]
      by_cases e : id' = id
      · subst e
        by_cases hs : (s.account o.tenant).active = some id' <;> simp [hst, hs]
      by_cases hs : (s.account o.tenant).active = some id
      · have : ¬ s.Active o.tenant id' := by
          rw [← h.active id', hs]
          simp [Ne.symm e]
        simp [hs, e, this]
      · simp [hs, e, h.active id']
  refine ⟨hact, ?_, ?_, ?_, hb.quota, hb.visible⟩
  · intro id' o' hid' ho'
    rw [hb.reserved]
    rw [ho, get?_insert] at ho'
    by_cases hst : o.state.active = true
    · have e : id = id' := by simpa [hb.active, hst] using hid'
      rw [if_pos e.symm] at ho'
      cases ho'
      simp [hst]
    · have hid : (s.account o.tenant).active ≠ some id ∧
          (s.account o.tenant).active = some id' := by
        rw [hb.active, if_neg hst] at hid'
        split at hid'
        · cases hid'
        · next hne => exact ⟨hne, hid'⟩
      have e : id' ≠ id := by
        rintro rfl
        exact hid.1 hid.2
      rw [if_neg e] at ho'
      rw [if_neg hst, if_neg hid.1]
      exact h.reserved id' o' hid.2 ho'
  · intro hnone
    rw [hb.active] at hnone
    by_cases hst : o.state.active = true
    · simp [hst] at hnone
    rw [hb.reserved, if_neg hst]
    rw [if_neg hst] at hnone
    split
    · rfl
    · next hne =>
      rw [if_neg hne] at hnone
      exact h.unreserved hnone
  · have hsum := allocated_insert ho hb.tenant o.tenant
    have hp := hb.physical
    rw [if_pos rfl, if_pos rfl, ← h.physical] at hsum
    omega

/-- **A balanced change keeps the books.** -/
theorem Books.post (h : Books s)
    (hb : Balanced id (s.logicalOperations.get? id) o (s.account o.tenant) b)
    (ho : s'.logicalOperations = s.logicalOperations.insert id o)
    (ha : ∀ t, s'.account t = if t = o.tenant then b else s.account t) : Books s' := by
  refine ⟨fun t => ?_, fun t => ?_, fun id' o' ho' => ?_⟩
  · rw [ha]
    by_cases e : t = o.tenant
    · subst e
      rw [if_pos rfl]
      exact hb.accounted (h.tenants _) ho
    -- another tenant: neither its account nor its operations have changed
    rw [if_neg e]
    have ht := h.tenants t
    have hact : ∀ id', s'.Active t id' ↔ s.Active t id' := by
      intro id'
      rw [active_insert ho]
      by_cases e' : id' = id
      · subst e'
        have : ¬ s.Active t id' := by
          rintro ⟨old, hold, htenant, -⟩
          exact e (htenant.symm.trans (hb.tenant old hold))
        simp [Ne.symm e, this]
      · rw [if_neg e']
    refine ⟨fun id' => (ht.active id').trans (hact id').symm, ?_, ht.unreserved, ?_, ht.quota,
      ht.visible⟩
    · intro id' o' hid' ho'
      obtain ⟨old, hold, htenant, -⟩ := (ht.active id').mp hid'
      have e' : id' ≠ id := by
        rintro rfl
        exact e (htenant.symm.trans (hb.tenant old hold))
      rw [ho, get?_insert, if_neg e'] at ho'
      exact ht.reserved id' o' hid' ho'
    · have hsum := allocated_insert ho hb.tenant t
      rw [if_neg (Ne.symm e), if_neg (Ne.symm e)] at hsum
      rw [ht.physical]
      omega
  · rw [ha]
    by_cases e : t = o.tenant
    · rw [if_pos e, hb.limits.1, hb.limits.2, ← e]
      exact h.limits t
    · rw [if_neg e]
      exact h.limits t
  · rw [ho] at ho'
    obtain ⟨-, rfl⟩ | ⟨-, ho'⟩ := get?_insert_cases ho'
    · exact hb.sound
    · exact h.sound id' o' ho'

/-- Neither the operations nor the counters have changed. -/
theorem Books.congr (h : Books s)
    (ho : ∀ id, s'.logicalOperations.get? id = s.logicalOperations.get? id)
    (hsum : ∀ t, s'.allocated t = s.allocated t) (ha : ∀ t, s'.account t = s.account t) :
    Books s' := by
  have hact : ∀ t id, s'.Active t id ↔ s.Active t id := by
    intro t id
    simp [MemoryState.Active, ho]
  refine ⟨fun t => ?_, fun t => ?_, fun id o hid => h.sound id o (ho id ▸ hid)⟩
  · obtain ⟨h₁, h₂, h₃, h₄, h₅, h₆⟩ := h.tenants t
    rw [ha]
    refine ⟨fun id => (h₁ id).trans (hact t id).symm, fun id o hid hop => ?_, h₃, ?_, h₅, h₆⟩
    · exact h₂ id o hid (ho id ▸ hop)
    · rw [h₄, hsum]
  · rw [ha]
    exact h.limits t

theorem Books.same (h : Books s) (hs : SameAccounts s s') : Books s' := by
  refine h.congr (fun id => by rw [hs.logicalOperations]) (fun t => ?_) fun t => ?_
  · simp only [allocated, hs.logicalOperations]
  · simp only [account, hs.workspaceUsage]

theorem Books.touch (h : Books s) (now : Int) (tenant : String) :
    Books (s.touchUsage now tenant) := by
  refine h.congr (fun id => rfl) (fun t => rfl) fun t => ?_
  rw [account_insert rfl]
  split
  · next e => rw [account_usageRow, e]
  · rfl

/-- A balanced change of one operation and the usage row of its tenant, beside other changes. -/
theorem Books.settle (h : Books s) (hs : SameAccounts s s₁) {tenant : String}
    (ht : o.tenant = tenant)
    (hb : Balanced id (s.logicalOperations.get? id) o (s.account tenant) u.account) :
    Books ((s₁.setUsage tenant u).setOperation id o) := by
  subst ht
  refine h.post hb ?_ fun t => ?_
  · simp only [setOperation, setUsage, hs.logicalOperations]
  · refine account_insert ?_ t
    simp only [setOperation, setUsage, hs.workspaceUsage]

/-- A change of one operation that leaves its counters and its activity as they are. -/
theorem Books.setOperation (h : Books s) {old : ManagedLogicalOperation}
    (hf : s.logicalOperations.get? id = some old) (ht : o.tenant = old.tenant)
    (hst : o.state.active = old.state.active)
    (hr : o.reservedPhysicalBytes = old.reservedPhysicalBytes) (hp : o.allocation = old.allocation)
    (hs : o.Sound) : Books (s.setOperation id o) := by
  have hold := h.tenants old.tenant
  refine h.post (b := s.account o.tenant) ?_ rfl fun t => ?_
  · rw [ht, hf]
    have hiff : (s.account old.tenant).active = some id ↔ o.state.active = true := by
      rw [hold.active, hst, MemoryState.Active, hf]
      simp
    refine ⟨?_, hs, fun ha => .inr (hiff.mpr ha), ?_, ?_, ?_, ⟨rfl, rfl⟩, hold.quota, hold.visible⟩
    · rintro _ ⟨⟩
      exact ht.symm
    · by_cases ha : o.state.active = true
      · rw [if_pos ha]
        exact hiff.mpr ha
      · rw [if_neg ha, if_neg fun e => ha (hiff.mp e)]
    · by_cases ha : o.state.active = true
      · rw [if_pos ha, hr]
        exact hold.reserved id old (hiff.mpr ha) hf
      · rw [if_neg ha, if_neg fun e => ha (hiff.mp e)]
    · simp [hp]
  · have : (s.setOperation id o).account t = s.account t := rfl
    rw [this]
    split
    · next e => rw [e]
    · rfl

end Post

/-! ### The calls -/

section Calls

variable (env : CallEnv) {s : MemoryState}

theorem insertLogicalOperation_books (h : Books s) (intent : ManagedLogicalOperationIntent) :
    Books (insertLogicalOperation env s intent).2 := by
  simp only [insertLogicalOperation]
  repeat' split
  all_goals try exact h
  next hnone _ =>
  -- a new operation is inactive, and has no counter that is not zero
  have ht := h.tenants intent.logical.tenantId
  have hne : (s.account intent.logical.tenantId).active ≠ some intent.operationId := by
    rw [ne_eq, ht.active]
    rintro ⟨o, ho, -⟩
    rw [hnone] at ho
    cases ho
  refine h.post (b := s.account intent.logical.tenantId) ?_ rfl fun t => ?_
  · rw [hnone]
    refine ⟨?_, ⟨le_rfl, fun _ => rfl, fun _ => rfl⟩, ?_, ?_, ?_, rfl, ⟨rfl, rfl⟩, ht.quota,
      ht.visible⟩
    · intro _ hn
      cases hn
    · intro ha
      exact absurd ha Bool.false_ne_true
    · exact (if_neg hne).symm
    · exact (if_neg hne).symm
  · change s.account t = if t = intent.logical.tenantId then _ else _
    split
    · next e => rw [e]
    · rfl

theorem recordLogicalUsage_books (h : Books s) (id : Uuid) (evidence : ManagedUsageEvidence) :
    Books (recordLogicalUsage env s id evidence).2 := by
  simp only [recordLogicalUsage]
  repeat' split
  all_goals try exact h
  next o ho _ _ =>
  obtain ⟨h₁, h₂, h₃⟩ := h.sound id o ho
  exact h.setOperation ho rfl rfl rfl rfl ⟨h₁, h₂, h₃⟩

theorem active_of_validLogicalTransition {source target : ManagedLogicalOperationState}
    (h : validLogicalTransition source target = true) :
    source.active = true ∧ target.active = true := by
  cases source <;> cases target <;> first | exact ⟨rfl, rfl⟩ | cases h

theorem terminal_of_active {state : ManagedLogicalOperationState} (h : state.active = true) :
    state.terminal = false ∧ state ≠ .intent := by
  cases state with
  | «open» | completing | commitUnknown => exact ⟨rfl, by simp⟩
  | _ => cases h

theorem transitionLogicalOperation_books (h : Books s) (id : Uuid)
    (source target : ManagedLogicalOperationState) (error : Option String) :
    Books (transitionLogicalOperation env s id source target error).2 := by
  simp only [transitionLogicalOperation]
  split
  · exact h
  next hv =>
  split
  · exact h
  next o ho =>
  split
  · exact h
  next hst =>
  obtain ⟨hsource, htarget⟩ := active_of_validLogicalTransition (by simpa using hv)
  rw [not_not] at hst
  obtain ⟨h₁, h₂, -⟩ := h.sound id o ho
  refine h.setOperation ho rfl (by rw [hst, hsource, htarget]) rfl rfl ⟨h₁, fun _ => ?_,
    fun hi => ?_⟩
  · exact h₂ (hst ▸ (terminal_of_active hsource).1)
  · exact absurd hi (terminal_of_active htarget).2

theorem reserveLogicalOperation_books (h : Books s) (id : Uuid) (bytes : Nat) :
    Books (reserveLogicalOperation env s id bytes).2 := by
  simp only [reserveLogicalOperation]
  split
  · exact h
  next o ho =>
  split
  · exact h
  split
  · exact h.touch env.now _
  split
  · exact h.touch env.now _
  next hintent =>
  split
  · exact h.touch env.now _
  next hfree =>
  split
  swap
  · exact h.touch env.now _
  next bound reserved hbound hreserved =>
  split
  · exact h.touch env.now _
  next hquota =>
  rw [not_not] at hintent
  have ht := h.tenants o.tenant
  have hrow := s.account_usageRow (t := o.tenant) env.now
  obtain ⟨hrel, hcom, -⟩ := h.sound id o ho
  have hnone : (s.account o.tenant).active = none := by
    rw [← hrow]
    exact Option.not_isSome_iff_eq_none.mp hfree
  have hz : (s.usageRow env.now o.tenant).reservedBytes = 0 := by
    rw [← hrow] at ht hnone
    exact ht.unreserved hnone
  have hres : reserved = bytes := by
    have hsum : reserved = (s.usageRow env.now o.tenant).reservedBytes + bytes :=
      checkedAdd_eq_some hreserved
    omega
  have hbound' : bound = (s.usageRow env.now o.tenant).visibleLimitBytes +
      (s.usageRow env.now o.tenant).replacementHeadroomBytes := checkedAdd_eq_some hbound
  rw [← hrow] at ht
  refine h.settle (.refl s) rfl ?_
  rw [ho, ← s.account_usageRow env.now]
  refine ⟨?_, ⟨hrel, fun _ => hcom (by rw [hintent]; rfl), ?_⟩, fun _ => .inl (hrow ▸ hnone), rfl,
    hres, rfl, ⟨rfl, rfl⟩, ?_, ht.visible⟩
  · rintro _ ⟨⟩
    rfl
  · intro hi
    cases hi
  · have hle : (s.usageRow env.now o.tenant).physicalAllocatedBytes + reserved ≤ bound := by
      simp only [checkedAdd] at hquota
      split at hquota
      · simp at hquota
        exact hquota
      · simp at hquota
    exact hbound' ▸ hle

/-- The account of a tenant whose operation `id` is finished with `derived` bytes allocated. -/
def Account.settle (a : Account) (id : Uuid) (o : ManagedLogicalOperation) (derived visible : Nat) :
    Account :=
  { a with
    active := if a.active = some id then none else a.active
    reserved := a.reserved - o.reservedPhysicalBytes
    physical := a.physical + derived
    visible := visible }

section Settle

/-- `o'` is `o`, finished with `d` bytes of its reservation allocated. -/
structure Finishes (o o' : ManagedLogicalOperation) (d : Nat) : Prop where
  intent : o'.intent = o.intent
  terminal : o'.state.terminal = true
  committed : o'.committedPhysicalBytes = d
  released : o'.releasedPhysicalBytes = o.releasedPhysicalBytes
  reserved : d ≤ o.reservedPhysicalBytes

variable {id : Uuid} {o o' : ManagedLogicalOperation} {d v : Nat} (h : Books s)
  (ho : s.logicalOperations.get? id = some o) (hu : o.state.terminal = false)
include h ho hu

/-- An unfinished operation is the active one, with its reservation, or has reserved nothing. -/
theorem Books.unfinished :
    ((s.account o.tenant).active = some id ∧
      (s.account o.tenant).reserved = o.reservedPhysicalBytes) ∨
    ((s.account o.tenant).active ≠ some id ∧ o.state = .intent ∧ o.reservedPhysicalBytes = 0) := by
  have ht := h.tenants o.tenant
  cases hst : o.state with
  | intent =>
    refine .inr ⟨?_, rfl, (h.sound id o ho).unreserved hst⟩
    rw [ne_eq, ht.active]
    rintro ⟨o₁, ho₁, -, ha⟩
    cases ho.symm.trans ho₁
    rw [hst] at ha
    cases ha
  | «open» | completing | commitUnknown =>
    have ha := (ht.active id).mpr ⟨o, ho, rfl, by rw [hst]; rfl⟩
    exact .inl ⟨ha, ht.reserved id o ha ho⟩
  | committed | provenAborted =>
    rw [hst] at hu
    cases hu

theorem Books.reserved_le : o.reservedPhysicalBytes ≤ (s.account o.tenant).reserved := by
  rcases h.unfinished ho hu with ⟨-, e⟩ | ⟨-, -, e⟩ <;> omega

/-- Finishing an operation within its reservation is a balanced change. -/
theorem Books.settles (hf : Finishes o o' d) (hv : v ≤ (s.account o.tenant).limit) :
    Balanced id (s.logicalOperations.get? id) o' (s.account o.tenant)
      ((s.account o.tenant).settle id o d v) := by
  obtain ⟨hi, hst, hc, hr, hd⟩ := hf
  obtain ⟨hrel, hcom, -⟩ := h.sound id o ho
  have hcom := hcom hu
  have hidle : o'.state.active = false := by
    cases hs : o'.state <;> rw [hs] at hst <;> first | rfl | cases hst
  have hle := h.reserved_le ho hu
  have hq := (h.tenants o.tenant).quota
  rw [ho]
  refine ⟨?_, ⟨by omega, ?_, ?_⟩, ?_, ?_, ?_, ?_, ⟨rfl, rfl⟩, ?_, hv⟩
  · rintro _ ⟨⟩
    exact congrArg (fun i : ManagedLogicalOperationIntent => i.logical.tenantId) hi.symm
  · rw [hst]
    intro hn
    cases hn
  · intro hn
    rw [hn] at hst
    cases hst
  · rw [hidle]
    intro hn
    cases hn
  · rw [hidle]
    rfl
  · rw [hidle]
    simp only [Account.settle]
    rcases h.unfinished ho hu with ⟨ha, e⟩ | ⟨ha, -, e⟩
    · simp [ha, e]
    · simp [ha, e]
  · simp only [Account.settle, ManagedLogicalOperation.allocation, Option.elim_some]
    omega
  · simp only [Account.settle]
    omega

/-- **An operation that is finished within its reservation keeps the books.** -/
theorem Books.finish (hs : SameAccounts s s₁) (hf : Finishes o o' d)
    (hv : v ≤ (s.account o.tenant).limit)
    (hacc : u.account = (s.account o.tenant).settle id o d v) :
    Books ((s₁.setUsage o.intent.logical.tenantId u).setOperation id o') := by
  refine h.settle hs ?_ ?_
  · exact congrArg (fun i : ManagedLogicalOperationIntent => i.logical.tenantId) hf.intent
  · rw [hacc]
    exact h.settles ho hu hf hv

/-- What an unfinished operation adds within its reservation does not overflow. -/
theorem Books.no_overflow {now : Int} (hd : d ≤ o.reservedPhysicalBytes) :
    checkedAdd 64 (s.usageRow now o.intent.logical.tenantId).physicalAllocatedBytes d ≠ none := by
  have hphys : (s.usageRow now o.intent.logical.tenantId).physicalAllocatedBytes =
    (s.account o.tenant).physical := congrArg Account.physical (s.account_usageRow now)
  have hq := (h.tenants o.tenant).quota
  obtain ⟨hl, hh⟩ := h.limits o.tenant
  have hle := h.reserved_le ho hu
  rw [hl, hh] at hq
  simp only [managedVisibleLimitBytes, managedReplacementHeadroomBytes] at hq
  rw [hphys, checkedAdd, if_pos]
  · exact Option.some_ne_none _
  · simp only [maxWord]
    omega

end Settle

theorem replayCommit_books (h : Books s) (operation : ManagedLogicalOperation)
    (accept : ObjectAuthority → Bool) : Books (s.replayCommit env operation accept).2 := by
  obtain e | e := replayCommit_cases env s operation accept
  · rw [e]
    exact h
  · rw [e]
    exact h.touch env.now _

theorem settleAbort_books (h : Books s) (hs : SameAccounts s s₁) {id : Uuid}
    (error : String)
    (ho : s.logicalOperations.get? id = some o) (hu : o.state.terminal = false)
    (hd : derived ≤ o.reservedPhysicalBytes) : Books (s₁.settleAbort env id o error derived).2 := by
  have h₁ := h.same hs
  have ho₁ : s₁.logicalOperations.get? id = some o := hs.logicalOperations ▸ ho
  have hrow := s₁.account_usageRow (t := o.tenant) env.now
  simp only [settleAbort]
  split
  · exact h₁.touch env.now _
  split
  · exact h₁.touch env.now _
  next reserved hreserved =>
  split
  · next hover => exact absurd hover (h₁.no_overflow ho₁ hu hd)
  next total htotal =>
  refine h₁.finish ho₁ hu (.refl s₁) ⟨rfl, rfl, rfl, rfl, hd⟩ (h₁.tenants o.tenant).visible ?_
  rw [checkedAdd_eq_some htotal, checkedSub_eq_sub hreserved, ← hrow]
  rfl

/-- A proven allocation lies within the reservation. -/
theorem abortAllocation_le
    {physical : ManagedProvenPhysicalAllocation}
    (h : s.abortAllocation o physical = .ok derived) : derived ≤ o.reservedPhysicalBytes := by
  simp only [abortAllocation] at h
  split at h
  · cases h
  split at h
  · cases h
  simp only [ite_error_eq_ok, not_or, not_lt] at h
  obtain ⟨hc, h⟩ := h
  cases h
  exact hc.2.2.2.2.2.2.2

theorem proveLogicalAbort_books [Sha256] (h : Books s) (id : Uuid) (error : String)
    (physical : Option ManagedProvenPhysicalAllocation) :
    Books (proveLogicalAbort env s id error physical).2 := by
  simp only [proveLogicalAbort]
  split
  · exact h
  next o ho =>
  split
  · exact h
  next haborted =>
  split
  · exact h
  next hcommitted =>
  have hu : o.state.terminal = false := by
    cases hs : o.state <;> first | rfl | exact absurd hs ‹_›
  split
  · exact h
  split
  · split
    · exact h
    · exact settleAbort_books env h (.refl s) error ho hu (Nat.zero_le _)
  · split
    · exact h
    · next hd =>
      exact settleAbort_books env h (insertLedgeredRepairs_only ..).accounts error ho hu
        (abortAllocation_le hd)

theorem OnlyRepairs.of_setAuthority {authority : ObjectAuthority}
    (h : OnlyRepairs (s.setAuthority authority) s₁) : SameAccounts s s₁ := by
  obtain ⟨ho, hu⟩ := h.accounts
  exact ⟨ho, hu⟩

theorem commitLogicalPut_books [Sha256] (h : Books s) (id : Uuid) (authority : ObjectAuthority)
    (allocated : Nat) : Books (commitLogicalPut env s id authority allocated).2 := by
  simp only [commitLogicalPut]
  split
  · exact h
  next o ho =>
  split
  · exact replayCommit_books env h o _
  split
  · exact h
  next derived hchecks =>
  obtain ⟨-, -, -, -, hst, -, -, hd⟩ := commitPutChecks_ok s hchecks
  have hu : o.state.terminal = false := by
    obtain hst | hst := hst <;> rw [hst] <;> rfl
  split
  · exact h.touch env.now _
  next hheld =>
  simp only [not_or, not_not, not_lt] at hheld
  split
  · exact h.touch env.now _
  next visible hvisible =>
  split
  · exact h.touch env.now _
  next hlimit =>
  split
  · next hover => exact absurd hover (h.no_overflow ho hu hd)
  next total htotal =>
  split
  · next hsub =>
    rw [checkedSub, if_pos hheld.2] at hsub
    cases hsub
  next reserved hreserved =>
  have hrow := s.account_usageRow (t := o.tenant) env.now
  refine h.finish ho hu (s.replaceAuthority_only env _ _ _).of_setAuthority ⟨rfl, rfl, rfl, rfl, hd⟩
    (v := visible) ?_ ?_
  · rw [← hrow]
    exact not_lt.mp hlimit
  · have ha : (s.usageRow env.now o.tenant).account.active = some id := hheld.1
    rw [checkedAdd_eq_some htotal, checkedSub_eq_sub hreserved, ← hrow, Account.settle, if_pos ha]
    rfl

theorem commitLogicalDelete_books [Sha256] (h : Books s) (id : Uuid) (placement : Placement) :
    Books (commitLogicalDelete env s id placement).2 := by
  simp only [commitLogicalDelete]
  split
  · exact h
  next o ho =>
  split
  · exact replayCommit_books env h o _
  split
  · exact h
  next hdel =>
  split
  · exact h
  split
  · exact h
  split
  · exact h.touch env.now _
  next hheld =>
  split
  · exact h.touch env.now _
  next visible hvisible =>
  simp only [ManagedLogicalOperation.deletable, Bool.and_eq_true, Bool.or_eq_true, beq_iff_eq,
    Bool.not_eq_true', Bool.not_eq_false] at hdel
  have hu : o.state.terminal = false := by
    rcases hdel.2 with hst | hst <;> rw [hst] <;> rfl
  have hrow := s.account_usageRow (t := o.tenant) env.now
  have hle : visible ≤ (s.account o.tenant).limit := by
    have hv := (h.tenants o.tenant).visible
    have : visible + o.intent.priorLogicalSize = (s.account o.tenant).visible := by
      rw [← hrow]
      exact checkedSub_eq_some hvisible
    omega
  refine h.finish ho hu (cleanupReplaced_only _ env _ _).of_setAuthority
    ⟨rfl, rfl, (h.sound id o ho).uncommitted hu, rfl, Nat.zero_le _⟩ hle ?_
  have ha : (s.usageRow env.now o.tenant).account.active = some id := not_not.mp hheld
  rw [← hrow, Account.settle, if_pos ha, hdel.1.1.2]
  rfl

theorem releaseAllocation_books (h : Books s) {id : Uuid}
    (ho : s.logicalOperations.get? id = some o) : Books (s.releaseAllocation env id o).2 := by
  have ht := h.tenants o.tenant
  have hrow := s.account_usageRow (t := o.tenant) env.now
  simp only [releaseAllocation]
  split
  · exact h
  next released hreleased =>
  split
  · exact h
  next hpos =>
  split
  · exact h.touch env.now _
  next allocated hallocated =>
  obtain ⟨hrel, hcom, hres⟩ := h.sound id o ho
  have hsub := checkedSub_eq_some hreleased
  have halloc : allocated + released = (s.account o.tenant).physical := by
    rw [← hrow]
    exact checkedSub_eq_some hallocated
  have hiff : (s.account o.tenant).active = some id ↔ o.state.active = true := by
    rw [ht.active, MemoryState.Active, ho]
    simp
  refine h.settle (.refl s) rfl ?_
  have hq := ht.quota
  rw [ho]
  change Balanced id (some o) _ (s.account o.tenant) _
  have hacc : { s.usageRow env.now o.intent.logical.tenantId with
      physicalAllocatedBytes := allocated
      version := satAdd 64 (s.usageRow env.now o.intent.logical.tenantId).version 1
      updatedAtMs := env.now }.account = { s.account o.tenant with physical := allocated } := by
    rw [← hrow]
    rfl
  rw [hacc]
  refine ⟨?_, ⟨le_rfl, hcom, hres⟩, fun ha => .inr (hiff.mpr ha), ?_, ?_, ?_, ⟨rfl, rfl⟩, ?_,
    ht.visible⟩
  · rintro _ ⟨⟩
    rfl
  · dsimp only
    by_cases ha : o.state.active = true
    · rw [if_pos ha]
      exact hiff.mpr ha
    · rw [if_neg ha, if_neg fun e => ha (hiff.mp e)]
  · dsimp only
    by_cases ha : o.state.active = true
    · rw [if_pos ha]
      exact ht.reserved id o (hiff.mpr ha) ho
    · rw [if_neg ha, if_neg fun e => ha (hiff.mp e)]
  · simp only [ManagedLogicalOperation.allocation, Option.elim_some]
    omega
  · dsimp only
    omega

theorem forgetPhysicalVersion_books (h : Books s) (target : PhysicalVersionTarget) :
    Books (forgetPhysicalVersion env s target).2 := by
  have h' : Books { s with physicalVersions := s.physicalVersions.filter (· != target) } :=
    h.same ⟨rfl, rfl⟩
  simp only [forgetPhysicalVersion]
  split
  · exact h'
  split
  · exact h'
  · next hf => exact releaseAllocation_books env h' (findEntry_some hf).1

/-- **A purge that drops a tenant closes its books.** -/
theorem Books.drops (h : Books s) {tenant : String} {s' : MemoryState}
    (hd : Drops env tenant s s') : Books s' := by
  have hget := hd.get?_logicalOperations
  have hacc : ∀ t, s'.account t = if t = tenant then
      ⟨none, 0, 0, 0, (s.account t).limit, (s.account t).headroom⟩ else s.account t := by
    intro t
    simp only [account, hd.workspaceUsage, dropNamespace, get?_modify]
    split
    · next e =>
      subst e
      cases s.workspaceUsage.get? t <;> rfl
    · rfl
  have hsum : ∀ t, s'.allocated t = if t = tenant then 0 else s.allocated t := by
    intro t
    simp only [allocated, hd.logicalOperations, dropNamespace,
      sumBy_mapValues]
    split
    · next e =>
      subst e
      refine sumBy_eq_zero fun id o ho => ?_
      by_cases ht : o.intent.logical.tenantId = t
      · simp [ht, ManagedLogicalOperation.allocation]
      · simp [ManagedLogicalOperation.tenant, ht]
    · next e =>
      congr 1
      funext _ o
      by_cases ht : o.intent.logical.tenantId = tenant
      · have hne : ¬ tenant = t := fun e' => e e'.symm
        simp [ManagedLogicalOperation.tenant, ht, hne]
      · simp [ht]
  have hact : ∀ t id, s'.Active t id ↔ t ≠ tenant ∧ s.Active t id := by
    intro t id
    simp only [MemoryState.Active, hget, Option.map_eq_some_iff]
    constructor
    · rintro ⟨_, ⟨o, ho, rfl⟩, rfl, hst⟩
      by_cases ht : o.intent.logical.tenantId = tenant
      · -- the tenant's operations are all finished
        have hterm := hd.settled id o ho ht
        simp only [if_pos ht] at hst
        rw [(terminal_of_active hst).1] at hterm
        cases hterm
      · simp only [if_neg ht] at hst ⊢
        exact ⟨ht, o, ho, rfl, hst⟩
    · rintro ⟨hne, o, ho, rfl, hst⟩
      have ht : ¬ o.intent.logical.tenantId = tenant := hne
      exact ⟨_, ⟨o, ho, rfl⟩, by rw [if_neg ht], by rw [if_neg ht]; exact hst⟩
  refine ⟨fun t => ?_, fun t => ?_, fun id o' ho' => ?_⟩
  · rw [hacc]
    by_cases e : t = tenant
    · rw [if_pos e]
      refine ⟨?_, ?_, fun _ => rfl, ?_, ?_, Nat.zero_le _⟩
      · intro id
        simp [hact, e]
      · intro id o hid
        cases hid
      · rw [hsum, if_pos e]
      · simp
    · rw [if_neg e]
      obtain ⟨h₁, h₂, h₃, h₄, h₅, h₆⟩ := h.tenants t
      refine ⟨?_, ?_, h₃, ?_, h₅, h₆⟩
      · intro id
        simp [hact, e, h₁ id]
      · intro id o hid ho
        obtain ⟨o₁, ho₁, ht₁, -⟩ := (h₁ id).mp hid
        have hne : ¬ o₁.intent.logical.tenantId = tenant := fun e' => e (ht₁.symm.trans e')
        rw [hget, ho₁, Option.map_some, if_neg hne] at ho
        cases ho
        exact h₂ id o hid ho₁
      · rw [hsum, if_neg e, h₄]
  · rw [hacc]
    split
    · exact h.limits t
    · exact h.limits t
  · rw [hget, Option.map_eq_some_iff] at ho'
    obtain ⟨o, ho, rfl⟩ := ho'
    obtain ⟨h₁, h₂, h₃⟩ := h.sound id o ho
    split
    · exact ⟨le_rfl, h₂, h₃⟩
    · exact ⟨h₁, h₂, h₃⟩

/-- **Every call keeps the books.** -/
theorem Call.next_books [Sha256] (h : Books s) (c : Call) : Books (c.next env s) := by
  by_cases ht : c.touchesAccounts = false
  · exact h.same (c.next_sameAccounts env s ht)
  have hpurge := c.next_purge env s
  cases c with
  | insertLogicalOperation intent => exact insertLogicalOperation_books env h intent
  | reserveLogicalOperation id bytes => exact reserveLogicalOperation_books env h id bytes
  | recordLogicalUsage id evidence => exact recordLogicalUsage_books env h id evidence
  | transitionLogicalOperation id source target error =>
    exact transitionLogicalOperation_books env h id source target error
  | commitLogicalPut id authority allocated =>
    exact commitLogicalPut_books env h id authority allocated
  | commitLogicalDelete id placement => exact commitLogicalDelete_books env h id placement
  | proveLogicalAbort id error physical => exact proveLogicalAbort_books env h id error physical
  | forgetPhysicalVersion target => exact forgetPhysicalVersion_books env h target
  | purgeNamespace | namespacePurgeStatus =>
    obtain ⟨-, hs⟩ | ⟨tenant, hd⟩ := hpurge rfl
    · exact h.same hs
    · exact h.drops env hd
  | _ => exact absurd rfl ht

end Calls

/-! ### Every reachable state -/

theorem books_of_reach [Sha256] {s : MemoryState} (r : Reach Init AnyStep s) : Books s := by
  refine r.invariant ?_ ?_
  · rintro s rfl
    refine ⟨fun t => ⟨fun id => ?_, ?_, fun _ => rfl, rfl, ?_, Nat.zero_le _⟩, fun t => ⟨rfl, rfl⟩,
      ?_⟩
    · constructor
      · intro hid
        cases hid
      · rintro ⟨o, ho, -⟩
        cases ho
    · intro id o hid
      cases hid
    · exact Nat.zero_le _
    · intro id o ho
      cases ho
  · rintro s e s' - h hs
    cases hs with
    | @call env c => exact c.next_books env h
    | rehash hs =>
      refine h.congr (fun id => (hs.logicalOperations.get?_eq id).symm) (fun t => ?_) fun t => ?_
      · exact (hs.logicalOperations.sumBy_eq _).symm
      · simp [account, hs.workspaceUsage.get?_eq t]

/-- **Logical accounting.**  In every state that the repository reaches, the account of every tenant
agrees with the tenant's operations and keeps within the quotas; no operation has released more than
it committed. -/
theorem accounts_agree_with_operations [Sha256] {s : MemoryState} (r : Reach Init AnyStep s) :
    (∀ t, Accounted s t (s.account t)) ∧ ∀ id o, s.logicalOperations.get? id = some o →
      o.releasedPhysicalBytes ≤ o.committedPhysicalBytes := by
  have h := books_of_reach r
  exact ⟨h.tenants, fun id o ho => (h.sound id o ho).released⟩

theorem reserved_account_agrees : letI := sampleSha256
    ∃ s, Reach Init AnyStep s ∧ (s.account "t").active = some ⟨101⟩ ∧
      (s.account "t").reserved = 64 ∧ Accounted s "t" (s.account "t") := by
  let _ := sampleSha256
  have r : Reach Init Step (runSample (putScript.take 2)) := reach_runSample (by decide +kernel)
  have ha : ((runSample (putScript.take 2)).account "t").active = some ⟨101⟩ := by decide +kernel
  have hr : ((runSample (putScript.take 2)).account "t").reserved = 64 := by decide +kernel
  generalize runSample (putScript.take 2) = s at r ha hr
  have r := reach_any r
  exact ⟨s, r, ha, hr, (accounts_agree_with_operations r).1 "t"⟩

end S4.Managed
