import S4.Managed.Accounts

/-!
# Managed — Usage

Are a tenant's visible bytes the sizes of its live authorities (`UsageExact`)?  Both commits trade
the size they replace for the size they install, and a purge clears both sides.  `publish` moves an
authority without a usage row in hand, and object `DELETE` reaches it through `tombstone`: deleting
a live object leaves its bytes counted (`delete_keeps_bytes_counted`).

`KeepsLiveSize` rules that out: a publication that goes through installs as many live bytes as it
replaces.  In every run of such steps the usage is exact (`usageExact_of_guarded`).
-/

namespace S4.Managed

open Lib

/-- The sizes of the tenant's non-tombstone authorities. -/
def MemoryState.liveBytes (s : MemoryState) (tenant : String) : Nat :=
  s.authorities.sumBy fun logical a => if logical.tenantId = tenant then liveSize (some a) else 0

/-- **The visible bytes of every tenant are the sizes of its live authorities.** -/
def UsageExact (s : MemoryState) : Prop := ∀ tenant, s.visibleBytes tenant = s.liveBytes tenant

/-- A publication that goes through installs as many live bytes as it replaces: for a tombstone, the
key has none. -/
def KeepsLiveSize (s : MemoryState) : Event → Prop
  | .call _ (.publish a cas) => s.publishable a.logical cas = true →
      liveSize (s.authorities.get? a.logical) = liveSize (some a)
  | .call _ (.tombstone logical cas _) => s.publishable logical cas = true →
      liveSize (s.authorities.get? logical) = 0
  | _ => True

/-! ### Live bytes -/

variable {l : LogicalObjectKey} {a : ObjectAuthority} {tenant : String} {c : Call}

section Live

variable {s s' : MemoryState} {env : CallEnv}

theorem liveBytes_congr (h : s'.authorities = s.authorities) (t : String) :
    s'.liveBytes t = s.liveBytes t := by
  unfold MemoryState.liveBytes
  rw [h]

/-- An authority in place of another trades the live sizes of the two. -/
theorem liveBytes_insert (h : s'.authorities = s.authorities.insert l a) (t : String) :
    s'.liveBytes t + (if l.tenantId = t then liveSize (s.authorities.get? l) else 0) =
      s.liveBytes t + (if l.tenantId = t then liveSize (some a) else 0) := by
  have hsum := KeyMap.sumBy_insert s.authorities l a
    (fun logical a => if logical.tenantId = t then liveSize (some a) else 0)
  have hold : (s.authorities.get? l).elim 0
      (fun a => if l.tenantId = t then liveSize (some a) else 0) =
      if l.tenantId = t then liveSize (s.authorities.get? l) else 0 := by
    cases s.authorities.get? l with
    | none => simp [liveSize]
    | some => rfl
  unfold MemoryState.liveBytes
  rw [h, ← hold]
  exact hsum

theorem liveBytes_of_same_size (h : s'.authorities = s.authorities.insert l a)
    (hsize : liveSize (s.authorities.get? l) = liveSize (some a)) (t : String) :
    s'.liveBytes t = s.liveBytes t := by
  have := liveBytes_insert h t
  rw [hsize] at this
  omega

theorem Drops.liveBytes (h : Drops env tenant s s') (t : String) :
    s'.liveBytes t = if t = tenant then 0 else s.liveBytes t := by
  have e : s'.authorities = s.authorities.retain fun logical _ => logical.tenantId != tenant :=
    h.authorities
  unfold MemoryState.liveBytes
  rw [e]
  split
  · rename_i e
    subst e
    refine KeyMap.sumBy_eq_zero fun l a hl => ?_
    rw [KeyMap.get?_retain, Option.filter_eq_some_iff] at hl
    have hne : l.tenantId ≠ t := by simpa using hl.2
    exact if_neg hne
  · rename_i hne
    refine KeyMap.sumBy_retain _ fun l a hl => ?_
    have hl : l.tenantId = tenant := by simpa using hl
    exact if_neg fun e => hne (e.symm.trans hl)

theorem Drops.visibleBytes (h : Drops env tenant s s')
    (t : String) : s'.visibleBytes t = if t = tenant then 0 else s.visibleBytes t := by
  unfold MemoryState.visibleBytes
  rw [h.workspaceUsage, MemoryState.dropNamespace, KeyMap.get?_modify]
  split
  · cases s.workspaceUsage.get? tenant <;> rfl
  · rfl

end Live

/-! ### Steps that keep the usage exact -/

section Steps

variable [Sha256] {env : CallEnv} {s s' : MemoryState}

omit [Sha256] in
theorem UsageExact.congr (h : UsageExact s) (hv : ∀ t, s'.visibleBytes t = s.visibleBytes t)
    (hl : ∀ t, s'.liveBytes t = s.liveBytes t) : UsageExact s' := by
  intro t
  rw [hv, hl]
  exact h t

omit [Sha256] in
theorem UsageExact.drops (h : UsageExact s) (hd : Drops env tenant s s') : UsageExact s' := by
  intro t
  rw [hd.visibleBytes, hd.liveBytes]
  split
  · rfl
  · exact h t

/-- **A commit trades, on both sides, the size it replaces for the size it installs.** -/
theorem UsageExact.commits {id : Uuid} {operation : ManagedLogicalOperation}
    {authority : ObjectAuthority} {usage : ManagedWorkspaceUsage} (h : UsageExact s)
    (hc : Commits env id operation authority usage s s') : UsageExact s' := by
  intro t
  obtain ⟨cas, epoch, hi⟩ := hc.installs
  have hlive := liveBytes_insert hi.authorities t
  have hkey : (authority.stamp env.now cas (s.authorities.get? authority.logical)).logical =
      authority.logical := rfl
  have hsize : liveSize (some (authority.stamp env.now cas
      (s.authorities.get? authority.logical))) = liveSize (some authority) := rfl
  rw [hkey, hsize, hc.prior] at hlive
  have hvisible := hc.visible
  rw [s.usageRow_visible] at hvisible
  have hbefore := h t
  rw [MemoryState.visibleBytes_insert hc.workspaceUsage]
  split
  · rename_i e
    rw [if_pos (by rw [hc.logical, e]), if_pos (by rw [hc.logical, e])] at hlive
    rw [e] at hbefore hlive ⊢
    omega
  · rename_i hne
    rw [hc.logical, if_neg (Ne.symm hne), if_neg (Ne.symm hne)] at hlive
    omega

/-- A publication that keeps the live size of its key keeps the usage exact. -/
theorem UsageExact.publish {cas : Option Nat} (h : UsageExact s)
    (hc : s.publishable a.logical cas = true →
      liveSize (s.authorities.get? a.logical) = liveSize (some a)) :
    UsageExact (publish env s a cas).2 := by
  obtain e | ⟨hp, epoch, hi, ha⟩ := publish_cases env s a cas
  · rw [e]
    exact h
  · exact h.congr ha.keeps.visible (liveBytes_of_same_size hi.authorities (hc hp))

theorem UsageExact.next_other (h : UsageExact s) (hs : c.settling = false)
    (hi : c.installing = false) : UsageExact (c.next env s) := by
  have hv := (c.next_keeps env s hs).visible
  obtain e | ⟨hi', -⟩ | ⟨l, old, new, hold, e, hch⟩ | ⟨tenant, hd⟩ := c.next_authorities env s
  · exact h.congr hv (liveBytes_congr e)
  · rw [hi] at hi'
    cases hi'
  · refine h.congr hv (liveBytes_of_same_size e ?_)
    rw [hold]
    simp only [liveSize, hch.tombstone, hch.size]
  · exact h.drops hd

theorem UsageExact.next (h : UsageExact s) (hc : KeepsLiveSize s (.call env c)) :
    UsageExact (c.next env s) := by
  have hpurge := c.next_purge env s
  cases c with
  | publish => exact h.publish hc
  | tombstone => exact h.publish hc
  | commitLogicalPut id authority allocated =>
    obtain e | ⟨tenant, e⟩ | ⟨-, -, operation, usage, hcom⟩ :=
      commitLogicalPut_cases env s id authority allocated
    · exact h.congr (KeepsAccounts.of_eq e).visible (liveBytes_congr (congrArg _ e))
    · exact h.congr (KeepsAccounts.of_touch e).visible
        (liveBytes_congr (SameObjects.of_touch e).authorities)
    · exact h.commits hcom
  | commitLogicalDelete id placement =>
    obtain e | ⟨tenant, e⟩ | ⟨operation, usage, hcom⟩ :=
      commitLogicalDelete_cases env s id placement
    · exact h.congr (KeepsAccounts.of_eq e).visible (liveBytes_congr (congrArg _ e))
    · exact h.congr (KeepsAccounts.of_touch e).visible
        (liveBytes_congr (SameObjects.of_touch e).authorities)
    · exact h.commits hcom
  | proveLogicalAbort id error physical =>
    obtain ⟨e, -⟩ | ⟨operation, usage, proven, -, -, -, ha, -⟩ :=
      proveLogicalAbort_cases env s id error physical
    · exact h.congr (KeepsAccounts.of_eq e).visible (liveBytes_congr (congrArg _ e))
    · refine h.congr (fun t => ?_) (liveBytes_congr ha.authorities)
      refine (MemoryState.visibleBytes_insert ha.workspaceUsage t).trans ?_
      rw [ha.visible, s.usageRow_visible]
      split
      · rename_i e
        rw [e]
      · rfl
  | purgeNamespace | namespacePurgeStatus =>
    obtain ⟨ho, ha⟩ | ⟨tenant, hd⟩ := hpurge rfl
    · exact h.congr ha.keeps.visible (liveBytes_congr ho.authorities)
    · exact h.drops hd
  | _ => exact h.next_other rfl rfl

/-- **In every run whose publications keep the live sizes of their keys, the visible bytes of every
tenant are the sizes of its live authorities.** -/
theorem usageExact_of_guarded (r : Reach Init (Guarded Step KeepsLiveSize) s) : UsageExact s := by
  refine r.invariant (I := UsageExact) ?_ ?_
  · rintro s rfl t
    rfl
  · intro s e s' _ h ⟨hs, hc⟩
    cases hs with
    | call => exact h.next hc
    | rehash hsame =>
      exact h.congr hsame.keepsAccounts.visible fun t => (hsame.authorities.sumBy_eq _).symm

end Steps

/-! ### A put and a delete -/

/-- The put meets the condition. -/
theorem putScript_usageExact :
    (runSample putScript).visibleBytes "t" = 3 ∧ UsageExact (runSample putScript) := by
  let _ := sampleSha256
  refine ⟨by decide +kernel,
    usageExact_of_guarded (guarded_runSample (by decide +kernel) fun entry h s => ?_)⟩
  simp only [putScript, List.mem_cons, List.not_mem_nil, or_false] at h
  rcases h with rfl | rfl | rfl | rfl | rfl | rfl | rfl <;> trivial

/-- **An object `DELETE` of a live object leaves its bytes counted.** -/
theorem delete_keeps_bytes_counted :
    ∃ (_ : Sha256) (s : MemoryState), Reach Init Step s ∧ ¬ UsageExact s := by
  refine ⟨sampleSha256, runSample (putScript ++ [(7, 10, .tombstone sampleKey (some 1)
    ⟨1, "a", some "b"⟩)]), reach_runSample (by decide +kernel), fun h => ?_⟩
  exact absurd (h "t") (by decide +kernel)

end S4.Managed
