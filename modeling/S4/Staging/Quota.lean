import S4.Staging.Completion

/-!
# Staging — Quota accounting

The counters of an upload are sums over its attempts: what its pending attempts have reserved, and
what its other attempts take up until their artifacts are deleted.  `Accounts` says so, and that the
totals stay within the limits of the upload, the tenant and the whole store.

`Tickets` ties the attempts to the tickets that `begin_part` handed out.  It is what makes
`commit_part` charge the upload that the attempt belongs to, and what keeps a pending attempt from
being retired as somebody's previous part.
-/

namespace S4.Staging

open Lib List MemoryState KeyMap

variable {u upload : MultipartUpload} {k id : String} {f : MultipartUpload → MultipartUpload}
  {reservedBytes : Nat} {x : MultipartIdentity × PendingPart} {part : MultipartPart}
  {a : MemoryAttempt} {p : PendingPart} {identity : MultipartIdentity}

/-! ### The books -/

/-- What an attempt reserves of an upload's bytes. -/
def reservation (id : String) (_ : String) (a : MemoryAttempt) : Nat :=
  if a.part.uploadId = id ∧ a.lifecycle = .pending then a.reservedBytes else 0

/-- What an attempt has staged of an upload's bytes. -/
def stagedSize (id : String) (_ : String) (a : MemoryAttempt) : Nat :=
  if a.part.uploadId = id ∧ a.lifecycle ≠ .pending then a.part.sizeBytes else 0

/-- What an upload is charged with. -/
def MultipartUpload.charge (u : MultipartUpload) : Nat := u.stagedBytes + u.reservedBytes

def tenantCharge (tenantId : String) (_ : String) (u : MultipartUpload) : Nat :=
  if u.identity.tenantId = tenantId then u.charge else 0

def globalCharge (_ : String) (u : MultipartUpload) : Nat := u.charge

/-- The counters agree with the attempts, and the charges are within the limits. -/
structure Accounts (quotas : StagingQuotaLimits) (s : MemoryState) : Prop where
  keyed : ∀ id u, s.uploads.get? id = some u → u.identity.uploadId = id
  owned : ∀ k a, s.attempts.get? k = some a → ∃ u, s.uploads.get? a.part.uploadId = some u
  reserved : ∀ id u, s.uploads.get? id = some u →
    u.reservedBytes = s.attempts.sumBy (reservation id)
  staged : ∀ id u, s.uploads.get? id = some u → u.stagedBytes = s.attempts.sumBy (stagedSize id)
  limit : ∀ id u, s.uploads.get? id = some u → u.charge ≤ u.snapshot.maxStagedBytes
  word : ∀ id u, s.uploads.get? id = some u → u.charge ≤ maxWord 64
  tenant : ∀ t, s.uploads.sumBy (tenantCharge t) ≤ quotas.tenantBytes
  global : s.uploads.sumBy globalCharge ≤ quotas.globalBytes

/-- Every attempt belongs to a ticket, and no current part to a pending attempt. -/
structure Tickets (begun : List (MultipartIdentity × PendingPart)) (s : MemoryState) : Prop where
  named : ∀ x ∈ begun, x.2.uploadId = x.1.uploadId
  unique : ∀ x ∈ begun, ∀ y ∈ begun, x.2.artifactKey = y.2.artifactKey → x = y
  attempts : ∀ k a, s.attempts.get? k = some a →
    ∃ x ∈ begun, x.2.artifactKey = k ∧ a.part.uploadId = x.2.uploadId ∧
      (a.lifecycle = .pending → a.reservedBytes = x.2.reservedBytes)
  parts : ∀ pk part, s.parts.get? pk = some part →
    (∃ x ∈ begun, x.2.artifactKey = part.artifactKey) ∧
      ∀ a, s.attempts.get? part.artifactKey = some a → a.lifecycle ≠ .pending

/-! ### Calls that leave the books alone -/

structure SameCounters (u u' : MultipartUpload) : Prop where
  identity : u'.identity = u.identity
  snapshot : u'.snapshot = u.snapshot
  staged : u'.stagedBytes = u.stagedBytes
  reserved : u'.reservedBytes = u.reservedBytes

theorem SameCounters.refl (u : MultipartUpload) : SameCounters u u := ⟨rfl, rfl, rfl, rfl⟩

theorem SameCounters.charge {u' : MultipartUpload} (h : SameCounters u u') :
    u'.charge = u.charge := by
  rw [MultipartUpload.charge, MultipartUpload.charge, h.staged, h.reserved]

section Books

variable {quotas : StagingQuotaLimits} {begun : List (MultipartIdentity × PendingPart)}
  {s s' : MemoryState}

/-- The counters of one upload agree with the attempts, within its limits. -/
structure Booked (attempts : KeyMap String MemoryAttempt) (id : String) (u : MultipartUpload) :
    Prop where
  keyed : u.identity.uploadId = id
  reserved : u.reservedBytes = attempts.sumBy (reservation id)
  staged : u.stagedBytes = attempts.sumBy (stagedSize id)
  limit : u.charge ≤ u.snapshot.maxStagedBytes
  word : u.charge ≤ maxWord 64

theorem Accounts.booked (hA : Accounts quotas s) (hu : s.uploads.get? id = some u) :
    Booked s.attempts id u :=
  ⟨hA.keyed id u hu, hA.reserved id u hu, hA.staged id u hu, hA.limit id u hu, hA.word id u hu⟩

theorem Accounts.of_booked (hB : ∀ id u, s.uploads.get? id = some u → Booked s.attempts id u)
    (owned : ∀ k a, s.attempts.get? k = some a → ∃ u, s.uploads.get? a.part.uploadId = some u)
    (tenant : ∀ t, s.uploads.sumBy (tenantCharge t) ≤ quotas.tenantBytes)
    (global : s.uploads.sumBy globalCharge ≤ quotas.globalBytes) : Accounts quotas s :=
  ⟨fun id u hu => (hB id u hu).keyed, owned, fun id u hu => (hB id u hu).reserved,
    fun id u hu => (hB id u hu).staged, fun id u hu => (hB id u hu).limit,
    fun id u hu => (hB id u hu).word, tenant, global⟩

/-- Uploads may go and may change in everything but their counters, as long as the uploads of the
attempts stay. -/
theorem Accounts.of_uploads (hA : Accounts quotas s) (hatt : s'.attempts = s.attempts)
    (hsame : ∀ id u', s'.uploads.get? id = some u' →
      ∃ u, s.uploads.get? id = some u ∧ SameCounters u u')
    (hown : ∀ k a, s.attempts.get? k = some a → ∃ u', s'.uploads.get? a.part.uploadId = some u') :
    Accounts quotas s' := by
  refine .of_booked (fun id u' hu' => ?_) (fun k a ha => hown k a (hatt ▸ ha)) (fun t => ?_) ?_
  · obtain ⟨u, hu, h⟩ := hsame id u' hu'
    obtain ⟨hkeyed, hreserved, hstaged, hlimit, hword⟩ := hA.booked hu
    rw [hatt]
    constructor
    · rwa [h.identity]
    · rwa [h.reserved]
    · rwa [h.staged]
    · rwa [h.charge, h.snapshot]
    · rwa [h.charge]
  · refine (sumBy_le_sumBy fun id u' hu' => ?_).trans (hA.tenant t)
    obtain ⟨u, hu, h⟩ := hsame id u' hu'
    exact ⟨u, hu, by rw [tenantCharge, tenantCharge, h.identity, h.charge]⟩
  · refine (sumBy_le_sumBy fun id u' hu' => ?_).trans hA.global
    obtain ⟨u, hu, h⟩ := hsame id u' hu'
    exact ⟨u, hu, h.charge.le⟩

/-- One upload is changed in something other than its counters. -/
theorem Accounts.of_modify (hA : Accounts quotas s) (hatt : s'.attempts = s.attempts)
    (hup : s'.uploads = s.uploads.modify k f) (hf : ∀ u, SameCounters u (f u)) :
    Accounts quotas s' := by
  refine hA.of_uploads hatt ?_ ?_
  · intro id u' hu'
    rw [hup] at hu'
    obtain ⟨rfl, u, hu, rfl⟩ | ⟨-, hu⟩ := get?_modify_cases hu'
    · exact ⟨u, hu, hf u⟩
    · exact ⟨u', hu, .refl _⟩
  · intro key a ha
    obtain ⟨u, hu⟩ := hA.owned key a ha
    rw [hup, get?_modify]
    split
    next hid =>
      rw [← hid, hu]
      exact ⟨_, rfl⟩
    · exact ⟨u, hu⟩

theorem Accounts.of_removed (hA : Accounts quotas s) (hatt : s'.attempts = s.attempts)
    (hup : ∀ id, s'.uploads.get? id = s.uploads.get? id ∨
      s'.uploads.get? id = none ∧ ∀ k a, s.attempts.get? k = some a → a.part.uploadId ≠ id) :
    Accounts quotas s' := by
  refine hA.of_uploads hatt ?_ ?_
  · intro id u' hu'
    obtain he | ⟨he, -⟩ := hup id
    · exact ⟨u', he ▸ hu', .refl _⟩
    · rw [he] at hu'
      cases hu'
  · intro k a ha
    obtain ⟨u, hu⟩ := hA.owned k a ha
    obtain he | ⟨-, hne⟩ := hup a.part.uploadId
    · exact ⟨u, he.trans hu⟩
    · exact absurd rfl (hne k a ha)

theorem Tickets.of_parts (hT : Tickets begun s) (hatt : s'.attempts = s.attempts)
    (hparts : ∀ pk part, s'.parts.get? pk = some part → s.parts.get? pk = some part) :
    Tickets begun s' where
  named := hT.named
  unique := hT.unique
  attempts k a ha := hT.attempts k a (hatt ▸ ha)
  parts pk part hp := by
    rw [hatt]
    exact hT.parts pk part (hparts pk part hp)

/-! ### `begin_part` -/

/-- What the loop over the uploads adds up, when no single charge overflows. -/
theorem usedBytes_fold (tenantId : String) (l : List MultipartUpload)
    (hl : ∀ u ∈ l, u.charge ≤ maxWord 64) (a b : Nat) :
    l.foldl (fun used candidate =>
        let bytes := satAdd 64 candidate.stagedBytes candidate.reservedBytes
        (used.1 + (if candidate.identity.tenantId = tenantId then bytes else 0),
          satAdd 64 used.2 bytes)) (a, min b (maxWord 64)) =
      (a + (l.map (tenantCharge tenantId "")).sum,
        min (b + (l.map MultipartUpload.charge).sum) (maxWord 64)) := by
  induction l generalizing a b with
  | nil => rfl
  | cons u rest ih =>
    have hu : satAdd 64 u.stagedBytes u.reservedBytes = u.charge :=
      min_eq_left (hl u mem_cons_self)
    have hb : satAdd 64 (min b (maxWord 64)) u.charge = min (b + u.charge) (maxWord 64) := by
      rw [satAdd]
      omega
    rw [foldl_cons]
    simp only [hu, hb]
    rw [ih (fun v hv => hl v (mem_cons_of_mem _ hv))]
    simp only [map_cons, sum_cons, tenantCharge, Nat.add_assoc]

theorem Accounts.usedBytes_eq (hA : Accounts quotas s) (tenantId : String) :
    s.usedBytes tenantId =
      (s.uploads.sumBy (tenantCharge tenantId),
        min (s.uploads.sumBy globalCharge) (maxWord 64)) := by
  have hl : ∀ u ∈ s.uploads.values, u.charge ≤ maxWord 64 := by
    intro u hu
    obtain ⟨id, hid⟩ := mem_values_iff.mp hu
    exact hA.word id u hid
  have hfold := usedBytes_fold tenantId s.uploads.values hl 0 0
  rw [Nat.zero_add, Nat.zero_add, ← sumBy_eq_sum_values, ← sumBy_eq_sum_values]
    at hfold
  exact hfold

theorem fitsUpload_iff (h : fitsUpload u reservedBytes = true) :
    u.charge + reservedBytes ≤ u.snapshot.maxStagedBytes ∧
      u.charge + reservedBytes ≤ maxWord 64 := by
  simp only [fitsUpload] at h
  split at h
  · cases h
  next total htotal =>
  obtain ⟨used, hused, htotal⟩ := Option.bind_eq_some_iff.mp htotal
  obtain rfl := checkedAdd_eq_some hused
  have hle := checkedAdd_le htotal
  obtain rfl := checkedAdd_eq_some htotal
  exact ⟨of_decide_eq_true h, hle⟩

theorem fitsQuota_iff {used quota : Nat} (h : fitsQuota used reservedBytes quota = true) :
    used + reservedBytes ≤ quota ∧ used + reservedBytes ≤ maxWord 64 := by
  simp only [fitsQuota] at h
  split at h
  · cases h
  next total htotal =>
  have hle := checkedAdd_le htotal
  obtain rfl := checkedAdd_eq_some htotal
  exact ⟨of_decide_eq_true h, hle⟩

/-- `begin_part` fails and changes nothing, or opens an attempt within all limits. -/
theorem beginPart_cases (quotas : StagingQuotaLimits) (env : CallEnv) (s : MemoryState)
    (identity : MultipartIdentity) (partNumber reservedBytes : Nat) (now : Int) :
    (∃ e, beginPart quotas env s identity partNumber reservedBytes now = (.error e, s)) ∨
      ∃ upload pending attempt, s.authorized identity = some upload ∧ 0 < reservedBytes ∧
        fitsUpload upload reservedBytes = true ∧
        fitsQuota (s.usedBytes identity.tenantId).1 reservedBytes quotas.tenantBytes = true ∧
        fitsQuota (s.usedBytes identity.tenantId).2 reservedBytes quotas.globalBytes = true ∧
        pending = PendingPart.make identity partNumber attempt reservedBytes env.uuid ∧
        beginPart quotas env s identity partNumber reservedBytes now =
          (.ok pending, s.open pending now) := by
  simp only [beginPart]
  split
  · exact .inl ⟨_, rfl⟩
  next hargs =>
  split
  · exact .inl ⟨_, rfl⟩
  next upload hupload =>
  split
  · exact .inl ⟨_, rfl⟩
  split
  · exact .inl ⟨_, rfl⟩
  next hfits =>
  split
  · exact .inl ⟨_, rfl⟩
  next hquota =>
  split
  · exact .inl ⟨_, rfl⟩
  next attempt hattempt =>
  simp only [Bool.or_eq_true, Bool.not_eq_true', not_or, Bool.not_eq_false] at hquota
  exact .inr ⟨upload, _, attempt, hupload, by omega, by simpa using hfits, hquota.1,
    hquota.2, rfl, rfl⟩

/-- The counters of one upload change together with the attempts. -/
structure Rebooks (id : String) (u : MultipartUpload) (f : MultipartUpload → MultipartUpload)
    (s s' : MemoryState) : Prop where
  found : s.uploads.get? id = some u
  uploads : s'.uploads = s.uploads.modify id f
  identity : (f u).identity = u.identity
  snapshot : (f u).snapshot = u.snapshot
  owned : ∀ k a, s'.attempts.get? k = some a → ∃ v, s.uploads.get? a.part.uploadId = some v
  reserved : (f u).reservedBytes = s'.attempts.sumBy (reservation id)
  staged : (f u).stagedBytes = s'.attempts.sumBy (stagedSize id)
  others : ∀ k ≠ id, s'.attempts.sumBy (reservation k) = s.attempts.sumBy (reservation k) ∧
    s'.attempts.sumBy (stagedSize k) = s.attempts.sumBy (stagedSize k)

theorem Accounts.of_change (hA : Accounts quotas s) (h : Rebooks id u f s s')
    (hlimit : (f u).charge ≤ u.snapshot.maxStagedBytes) (hword : (f u).charge ≤ maxWord 64)
    (htenant : s.uploads.sumBy (tenantCharge u.identity.tenantId) + (f u).charge ≤
      quotas.tenantBytes + u.charge)
    (hglobal : s.uploads.sumBy globalCharge + (f u).charge ≤ quotas.globalBytes + u.charge) :
    Accounts quotas s' := by
  obtain ⟨hu, hup, hident, hsnap, hown, hr, hs, hothers⟩ := h
  refine .of_booked (fun k u' hu' => ?_) (fun k a' ha' => ?_) (fun t => ?_) ?_
  · rw [hup] at hu'
    obtain ⟨rfl, v, hv, rfl⟩ | ⟨hk, hu'⟩ := get?_modify_cases hu'
    · cases hu.symm.trans hv
      exact ⟨by rw [hident, hA.keyed k u hu], hr, hs, by rwa [hsnap], hword⟩
    · obtain ⟨hkeyed, hreserved, hstaged, hlimit, hword⟩ := hA.booked hu'
      obtain ⟨hr', hs'⟩ := hothers k hk
      exact ⟨hkeyed, hr'.symm ▸ hreserved, hs'.symm ▸ hstaged, hlimit, hword⟩
  · obtain ⟨v, hv⟩ := hown k a' ha'
    rw [hup, get?_modify]
    split
    · rw [hu]
      exact ⟨_, rfl⟩
    · exact ⟨v, hv⟩
  · have h := sumBy_modify hu f (tenantCharge t)
    have hold := hA.tenant t
    simp only [tenantCharge, hident] at h
    rw [hup]
    split at h
    next ht =>
      subst ht
      omega
    · omega
  · have h := sumBy_modify hu f globalCharge
    rw [hup]
    simp only [globalCharge] at h hglobal ⊢
    omega

/-- The new attempt and its reservation go into the books together. -/
theorem Accounts.open (hA : Accounts quotas s)
    (hu : s.uploads.get? p.uploadId = some u) (hfresh : s.attempts.get? p.artifactKey = none)
    (hlimit : u.charge + p.reservedBytes ≤ u.snapshot.maxStagedBytes)
    (hword : u.charge + p.reservedBytes ≤ maxWord 64)
    (htenant : s.uploads.sumBy (tenantCharge u.identity.tenantId) + p.reservedBytes ≤
      quotas.tenantBytes)
    (hglobal : s.uploads.sumBy globalCharge + p.reservedBytes ≤ quotas.globalBytes) (now : Int) :
    Accounts quotas (s.open p now) := by
  have hsum (w : String → MemoryAttempt → Nat) :
      (s.open p now).attempts.sumBy w =
        s.attempts.sumBy w + w p.artifactKey (p.toAttempt now) := by
    have h := s.attempts.sumBy_insert p.artifactKey (p.toAttempt now) w
    rw [hfresh] at h
    exact h
  simp only [MultipartUpload.charge] at hlimit hword
  refine hA.of_change ⟨hu, rfl, rfl, rfl, ?owned, ?reserved, ?staged, ?others⟩ ?_ ?_ ?_ ?_
  case owned =>
    intro k a ha
    obtain ⟨-, rfl⟩ | ⟨-, ha⟩ := get?_insert_cases ha
    · exact ⟨u, hu⟩
    · exact hA.owned k a ha
  case reserved =>
    rw [hsum, ← hA.reserved _ u hu]
    simp [reservation, PendingPart.toAttempt]
  case staged =>
    rw [hsum, ← hA.staged _ u hu]
    simp [stagedSize, PendingPart.toAttempt]
  case others =>
    intro k hk
    simp [hsum, reservation, stagedSize, PendingPart.toAttempt, hk.symm]
  all_goals
    simp only [MultipartUpload.charge]
    omega

theorem Tickets.open (hT : Tickets begun s) (hid : p.uploadId = identity.uploadId)
    (hfresh : ∀ x ∈ begun, x.2.artifactKey ≠ p.artifactKey) (now : Int) :
    Tickets ((identity, p) :: begun) (s.open p now) where
  named x hx := by
    obtain rfl | hx := mem_cons.mp hx
    · exact hid
    · exact hT.named x hx
  unique x hx y hy hxy := by
    obtain rfl | hx := mem_cons.mp hx
    · obtain rfl | hy := mem_cons.mp hy
      · rfl
      · exact absurd hxy.symm (hfresh y hy)
    · obtain rfl | hy := mem_cons.mp hy
      · exact absurd hxy (hfresh x hx)
      · exact hT.unique x hx y hy hxy
  attempts k a ha := by
    obtain ⟨rfl, rfl⟩ | ⟨-, ha⟩ := get?_insert_cases ha
    · exact ⟨_, mem_cons_self, rfl, rfl, fun _ => rfl⟩
    · obtain ⟨x, hx, h⟩ := hT.attempts k a ha
      exact ⟨x, mem_cons_of_mem _ hx, h⟩
  parts pk part hp := by
    obtain ⟨⟨x, hx, hk⟩, hpart⟩ := hT.parts pk part hp
    refine ⟨⟨x, mem_cons_of_mem _ hx, hk⟩, fun a ha => ?_⟩
    obtain ⟨he, -⟩ | ⟨-, ha⟩ := get?_insert_cases ha
    · exact absurd (hk.trans he) (hfresh x hx)
    · exact hpart a ha

/-! ### `commit_part` -/

/-- Attempts may change as long as the weights stay. -/
theorem Accounts.of_attempts (hA : Accounts quotas s) (hup : s'.uploads = s.uploads)
    (hown : ∀ k a', s'.attempts.get? k = some a' →
      ∃ a, s.attempts.get? k = some a ∧ a'.part.uploadId = a.part.uploadId)
    (hr : ∀ id, s'.attempts.sumBy (reservation id) = s.attempts.sumBy (reservation id))
    (hs : ∀ id, s'.attempts.sumBy (stagedSize id) = s.attempts.sumBy (stagedSize id)) :
    Accounts quotas s' := by
  refine .of_booked (fun id u hu => ?_) (fun k a' ha' => ?_) (hup ▸ hA.tenant) (hup ▸ hA.global)
  · obtain ⟨hkeyed, hreserved, hstaged, hlimit, hword⟩ := hA.booked (hup ▸ hu)
    exact ⟨hkeyed, (hr id).symm ▸ hreserved, (hs id).symm ▸ hstaged, hlimit, hword⟩
  · obtain ⟨a, ha, he⟩ := hown k a' ha'
    rw [hup, he]
    exact hA.owned k a ha

theorem MemoryState.get?_retire {s : MemoryState} {previous : Option MultipartPart}
    {a' : MemoryAttempt} (h : (s.retire previous).attempts.get? k = some a') :
    ∃ a, s.attempts.get? k = some a ∧ a'.part = a.part ∧
      (a'.lifecycle = .pending → a' = a) := by
  cases previous with
  | none => exact ⟨a', h, rfl, fun _ => rfl⟩
  | some =>
    obtain ⟨rfl, a, ha, rfl⟩ | ⟨-, h⟩ := get?_modify_cases h
    · exact ⟨a, ha, rfl, fun h => by cases h⟩
    · exact ⟨a', h, rfl, fun _ => rfl⟩

/-- The previous part's attempt is not pending, so retiring it moves no bytes. -/
theorem Accounts.retire (hA : Accounts quotas s) (hT : Tickets begun s) (pk : String × Nat) :
    Accounts quotas (s.retire (s.parts.get? pk)) := by
  refine hA.of_attempts (s.retire_uploads _) ?_ ?_ ?_
  · intro k a' ha'
    obtain ⟨a, ha, hpart, -⟩ := get?_retire ha'
    exact ⟨a, ha, by rw [hpart]⟩
  all_goals
    intro id
    cases hp : s.parts.get? pk with
    | none => rfl
    | some old =>
      refine sumBy_modify_of_eq fun a ha => ?_
      have hnot := (hT.parts pk old hp).2 a ha
      simp [reservation, stagedSize, hnot]

theorem Tickets.retire (hT : Tickets begun s) (previous : Option MultipartPart) :
    Tickets begun (s.retire previous) where
  named := hT.named
  unique := hT.unique
  attempts k a' ha' := by
    obtain ⟨a, ha, hpart, heq⟩ := get?_retire ha'
    obtain ⟨x, hx, hk, hid, hbytes⟩ := hT.attempts k a ha
    refine ⟨x, hx, hk, by rw [hpart]; exact hid, fun hpending => ?_⟩
    obtain rfl := heq hpending
    exact hbytes hpending
  parts pk part hp := by
    rw [s.retire_parts] at hp
    obtain ⟨hx, hpart⟩ := hT.parts pk part hp
    refine ⟨hx, fun a' ha' hpending => ?_⟩
    obtain ⟨a, ha, -, heq⟩ := get?_retire ha'
    rw [heq hpending] at hpending
    exact hpart a ha hpending

/-- The attempt of a ticket becomes the current part. -/
theorem Tickets.publish {uploadId : String} (hT : Tickets begun s) (hx : x ∈ begun)
    (hcovers : x.2.covers part = true) : Tickets begun (s.publish uploadId part) := by
  simp only [PendingPart.covers, Bool.and_eq_true, beq_iff_eq] at hcovers
  obtain ⟨⟨⟨⟨hid, -⟩, -⟩, hkey⟩, -⟩ := hcovers
  refine ⟨hT.named, hT.unique, ?_, ?_⟩
  · intro k a ha
    obtain ⟨hk, -, -, rfl⟩ | ⟨-, ha⟩ := get?_modify_cases ha
    · exact ⟨x, hx, (hk.trans hkey).symm, hid, fun h => by cases h⟩
    · exact hT.attempts k a ha
  · intro pk q hq
    -- whichever part it is, a pending attempt under its key is not the one just published
    have hpart : (∃ x ∈ begun, x.2.artifactKey = q.artifactKey) ∧
        (q.artifactKey ≠ part.artifactKey →
          ∀ a, s.attempts.get? q.artifactKey = some a → a.lifecycle ≠ .pending) := by
      obtain ⟨-, rfl⟩ | ⟨-, hq⟩ := get?_insert_cases hq
      · exact ⟨⟨x, hx, hkey.symm⟩, fun h => absurd rfl h⟩
      · obtain ⟨hx, hpart⟩ := hT.parts pk q hq
        exact ⟨hx, fun _ => hpart⟩
    refine ⟨hpart.1, fun a ha => ?_⟩
    obtain ⟨-, -, -, rfl⟩ | ⟨hk, ha⟩ := get?_modify_cases ha
    · simp
    · exact hpart.2 hk a ha

/-- A charge that does not grow is within its limits. -/
theorem Accounts.of_release (hA : Accounts quotas s) (h : Rebooks id u f s s')
    (hcharge : (f u).charge ≤ u.charge) : Accounts quotas s' :=
  hA.of_change h (hcharge.trans (hA.limit id u h.found)) (hcharge.trans (hA.word id u h.found))
    (Nat.add_le_add (hA.tenant _) hcharge) (Nat.add_le_add hA.global hcharge)

/-- The attempt under the key of a ticket belongs to the ticket's upload. -/
theorem Tickets.uploadId_eq
    (hT : Tickets begun s) (hx : x ∈ begun) (ha : s.attempts.get? x.2.artifactKey = some a) :
    a.part.uploadId = x.1.uploadId := by
  obtain ⟨y, hy, hkey, hid, -⟩ := hT.attempts _ a ha
  obtain rfl := hT.unique y hy x hx hkey
  rw [hid]
  exact hT.named y hy

/-- What `commit_part` does with the books of a pending attempt: the subtraction does not
underflow, and the reservation is traded for the size. -/
theorem Accounts.settle (env : CallEnv) (hA : Accounts quotas s)
    (hT : Tickets begun s) (hx : x ∈ begun) (hcovers : x.2.covers part = true)
    (hu : s.uploads.get? x.1.uploadId = some upload)
    (ha : s.attempts.get? x.2.artifactKey = some a) (hpending : a.lifecycle = .pending)
    (hbytes : a.reservedBytes = x.2.reservedBytes) (previous : Option MultipartPart) :
    ∃ f, (∀ u, (f u).lifecycle = u.lifecycle) ∧
      (s.publish x.1.uploadId part).settle env upload x.1.uploadId x.2 part previous =
        (.ok previous.toList, (s.publish x.1.uploadId part).modifyUpload x.1.uploadId f) ∧
      Accounts quotas ((s.publish x.1.uploadId part).modifyUpload x.1.uploadId f) ∧
      Tickets begun ((s.publish x.1.uploadId part).modifyUpload x.1.uploadId f) := by
  have hT' : Tickets begun (s.publish x.1.uploadId part) := hT.publish hx hcovers
  have haid := hT.uploadId_eq hx ha
  simp only [PendingPart.covers, Bool.and_eq_true, beq_iff_eq, decide_eq_true_eq] at hcovers
  obtain ⟨⟨⟨⟨hid, -⟩, -⟩, hkey⟩, hsize⟩ := hcovers
  have hpid : part.uploadId = x.1.uploadId := hid.trans (hT.named x hx)
  rw [← hkey] at ha
  -- the weights of the attempt, before and after
  have hr := sumBy_modify ha (fun _ => ⟨part, 0, .current⟩) (reservation x.1.uploadId)
  rw [show reservation x.1.uploadId part.artifactKey a = x.2.reservedBytes by
      simp [reservation, haid, hpending, hbytes],
    show reservation x.1.uploadId part.artifactKey ⟨part, 0, .current⟩ = 0 by
      simp [reservation], ← hA.reserved _ _ hu] at hr
  have hs := sumBy_modify ha (fun _ => ⟨part, 0, .current⟩) (stagedSize x.1.uploadId)
  rw [show stagedSize x.1.uploadId part.artifactKey a = 0 by simp [stagedSize, hpending],
    show stagedSize x.1.uploadId part.artifactKey ⟨part, 0, .current⟩ = part.sizeBytes by
      simp [stagedSize, hpid], ← hA.staged _ _ hu] at hs
  have hword := hA.word _ _ hu
  rw [MultipartUpload.charge] at hword
  have hle : x.2.reservedBytes ≤ upload.reservedBytes := by omega
  rw [MemoryState.settle, checkedSub_of_le hle]
  dsimp only
  rw [checkedAdd_of_le (by omega)]
  refine ⟨_, fun u => ?_, rfl, ?_, ?_⟩
  · rfl
  · refine hA.of_release ⟨hu, rfl, rfl, rfl, ?_, ?_, ?_, ?_⟩ ?_
    · intro k a' ha'
      obtain ⟨-, -, -, rfl⟩ | ⟨-, ha'⟩ := get?_modify_cases ha'
      · exact ⟨upload, hpid ▸ hu⟩
      · exact hA.owned k a' ha'
    · simp only [modifyUpload, MemoryState.publish]
      omega
    · simp only [modifyUpload, MemoryState.publish]
      omega
    · intro k hk
      constructor
      all_goals
        refine sumBy_modify_of_eq fun b hb => ?_
        cases ha.symm.trans hb
        simp [reservation, stagedSize, haid, hpid, hk.symm]
    · simp only [MultipartUpload.charge]
      omega
  · exact hT'.of_parts rfl fun _ _ h => h

/-- `commit_part` keeps the books, and none of its errors is an accounting error. -/
theorem Accounts.commitPart (env : CallEnv)
    (part : MultipartPart) (hA : Accounts quotas s) (hT : Tickets begun s) (hx : x ∈ begun) :
    (∀ m, (commitPart env s x.1 x.2 part).1 ≠ .error (.persistence m)) ∧
      Accounts quotas (commitPart env s x.1 x.2 part).2 ∧
      Tickets begun (commitPart env s x.1 x.2 part).2 := by
  simp only [Staging.commitPart]
  split
  · exact ⟨fun _ h => (by cases h), hA, hT⟩
  next hcovers =>
  have hcovers : x.2.covers part = true := by simpa using hcovers
  split
  · exact ⟨fun _ h => (by cases h), hA, hT⟩
  next upload hupload =>
  obtain ⟨hu, -⟩ := authorized_eq_some hupload
  split
  · exact ⟨fun _ h => (by cases h), hA, hT⟩
  have hA' := hA.retire hT (x.1.uploadId, part.partNumber)
  have hT' := hT.retire (s.parts.get? (x.1.uploadId, part.partNumber))
  split
  · exact ⟨fun _ h => (by cases h), hA', hT'⟩
  next a ha =>
  split
  · exact ⟨fun _ h => (by cases h), hA', hT'⟩
  next hpending =>
  obtain ⟨hpending, hbytes⟩ := not_or.mp hpending
  rw [← s.retire_uploads (s.parts.get? (x.1.uploadId, part.partNumber))] at hu
  obtain ⟨f, -, hs', hA'', hT''⟩ := hA'.settle env hT' hx hcovers hu ha
    (not_ne_iff.mp hpending) (not_ne_iff.mp hbytes)
    (s.parts.get? (x.1.uploadId, part.partNumber))
  rw [hs']
  exact ⟨fun _ h => (by cases h), hA'', hT''⟩

/-! ### `confirm_artifact_deleted` -/

/-- Deleting an artifact always succeeds, and gives back what its attempt took up. -/
theorem Accounts.confirmArtifactDeleted (env : CallEnv) (key : String) (hA : Accounts quotas s)
    (hT : Tickets begun s) :
    (confirmArtifactDeleted env s key).1 = .ok () ∧
      Accounts quotas (confirmArtifactDeleted env s key).2 ∧
      Tickets begun (confirmArtifactDeleted env s key).2 := by
  rw [Staging.confirmArtifactDeleted]
  split
  · exact ⟨rfl, hA, hT⟩
  next a ha =>
  obtain ⟨u, hu⟩ := hA.owned key a ha
  have hsum := fun w => s.attempts.sumBy_erase key w
  simp only [ha, Option.elim_some] at hsum
  have hr := hsum (reservation a.part.uploadId)
  have hs := hsum (stagedSize a.part.uploadId)
  have hru := hA.reserved _ _ hu
  have hsu := hA.staged _ _ hu
  have hT' : Tickets begun (s.forget key) := by
    refine ⟨hT.named, hT.unique, fun k b hb => hT.attempts k b (get?_erase_cases hb).2, ?_⟩
    intro pk part hp
    simp only [forget, get?_retain, Option.filter_eq_some_iff] at hp
    obtain ⟨hx, hpart⟩ := hT.parts pk part hp.1
    exact ⟨hx, fun b hb => hpart b (get?_erase_cases hb).2⟩
  have hA' (f : MultipartUpload → MultipartUpload)
      (hf : (f u).identity = u.identity ∧ (f u).snapshot = u.snapshot)
      (hreserved : (f u).reservedBytes + reservation a.part.uploadId key a = u.reservedBytes)
      (hstaged : (f u).stagedBytes + stagedSize a.part.uploadId key a = u.stagedBytes) :
      Accounts quotas ((s.forget key).modifyUpload a.part.uploadId f) := by
    refine hA.of_release ⟨hu, rfl, hf.1, hf.2, ?_, ?_, ?_, ?_⟩ ?_
    · intro k b hb
      exact hA.owned k b (get?_erase_cases hb).2
    · simp only [modifyUpload, forget]
      omega
    · simp only [modifyUpload, forget]
      omega
    · intro k hk
      have hr := hsum (reservation k)
      have hs := hsum (stagedSize k)
      simp only [reservation, stagedSize, hk.symm, false_and, if_false, Nat.add_zero] at hr hs
      exact ⟨hr, hs⟩
    · simp only [MultipartUpload.charge]
      omega
  rw [release, show (s.forget key).uploads = s.uploads from rfl, hu]
  dsimp only
  split
  next hpending =>
    have hw : reservation a.part.uploadId key a = a.reservedBytes := by
      simp [reservation, hpending]
    have hw' : stagedSize a.part.uploadId key a = 0 := by simp [stagedSize, hpending]
    rw [checkedSub_of_le (by omega)]
    refine ⟨rfl, hA' _ ⟨rfl, rfl⟩ ?_ ?_, hT'.of_parts rfl fun _ _ h => h⟩
    · simp only [hw]
      omega
    · simp [hw']
  next hpending =>
  have hw : reservation a.part.uploadId key a = 0 := by simp [reservation, hpending]
  have hw' : stagedSize a.part.uploadId key a = a.part.sizeBytes := by
    simp [stagedSize, hpending]
  rw [checkedSub_of_le (by omega)]
  refine ⟨rfl, hA' _ ⟨rfl, rfl⟩ ?_ ?_, hT'.of_parts rfl fun _ _ h => h⟩
  · simp [hw]
  · simp only [hw']
    omega

/-! ### Every call -/

/-- Accounts and tickets together. -/
structure Balanced (quotas : StagingQuotaLimits) (begun : List (MultipartIdentity × PendingPart))
    (s : MemoryState) : Prop where
  accounts : Accounts quotas s
  tickets : Tickets begun s

/-- A new upload has nothing in the books. -/
theorem Balanced.create (hB : Balanced quotas begun s)
    (hfresh : s.uploads.get? upload.identity.uploadId = none)
    (hzero : upload.stagedBytes = 0 ∧ upload.reservedBytes = 0) :
    Balanced quotas begun (create s upload).2 := by
  obtain ⟨hA, hT⟩ := hB
  obtain he | he := create_cases s upload
  · rw [he]
    exact ⟨hA, hT⟩
  have hcharge : upload.charge = 0 := by
    rw [MultipartUpload.charge, hzero.1, hzero.2]
  have hno (k : String) (a : MemoryAttempt) (ha : s.attempts.get? k = some a) :
      a.part.uploadId ≠ upload.identity.uploadId := by
    intro h
    obtain ⟨u, hu⟩ := hA.owned k a ha
    rw [h, hfresh] at hu
    cases hu
  have hsum (w : String → MultipartUpload → Nat) (hw : w upload.identity.uploadId upload = 0) :
      (s.uploads.insert upload.identity.uploadId upload).sumBy w = s.uploads.sumBy w := by
    have h := s.uploads.sumBy_insert upload.identity.uploadId upload w
    rw [hfresh, hw] at h
    exact h
  rw [he]
  refine ⟨.of_booked (fun id u hu => ?_) (fun k a ha => ?_) (fun t => ?_) ?_,
    hT.of_parts rfl fun _ _ h => h⟩
  · obtain ⟨rfl, rfl⟩ | ⟨-, hu⟩ := get?_insert_cases hu
    · constructor
      case keyed => rfl
      case reserved =>
        rw [hzero.2, sumBy_eq_zero fun k a ha => ?_]
        simp [reservation, hno k a ha]
      case staged =>
        rw [hzero.1, sumBy_eq_zero fun k a ha => ?_]
        simp [stagedSize, hno k a ha]
      all_goals
        rw [hcharge]
        exact Nat.zero_le _
    · exact hA.booked hu
  · obtain ⟨u, hu⟩ := hA.owned k a ha
    exact ⟨u, by rw [get?_insert_ne _ _ (hno k a ha)]; exact hu⟩
  · rw [hsum _ (by simp [tenantCharge, hcharge])]
    exact hA.tenant t
  · rw [hsum _ hcharge]
    exact hA.global

theorem Balanced.of_modify (hB : Balanced quotas begun s) (hatt : s'.attempts = s.attempts)
    (hup : s'.uploads = s.uploads.modify k f) (hf : ∀ u, SameCounters u (f u))
    (hparts : ∀ pk part, s'.parts.get? pk = some part → s.parts.get? pk = some part) :
    Balanced quotas begun s' :=
  ⟨hB.accounts.of_modify hatt hup hf, hB.tickets.of_parts hatt hparts⟩

theorem MemoryState.get?_extractParts {s : MemoryState} {ids : List String} {pk : String × Nat}
    (h : (s.extractParts ids).2.parts.get? pk = some part) : s.parts.get? pk = some part := by
  simp only [extractParts, get?_retain, Option.filter_eq_some_iff] at h
  exact h.1

theorem Balanced.abort (hB : Balanced quotas begun s) (identity : MultipartIdentity) (now : Int) :
    Balanced quotas begun (abort s identity now).2 := by
  simp only [Staging.abort]
  repeat' split
  all_goals try exact hB
  exact hB.of_modify rfl rfl (fun u => ⟨rfl, rfl, rfl, rfl⟩)
    fun _ _ h => get?_extractParts h

theorem MemoryState.holdsArtifacts_false {s : MemoryState} (h : s.holdsArtifacts id = false)
    (ha : s.attempts.get? k = some a) : a.part.uploadId ≠ id := by
  simp only [holdsArtifacts, Bool.or_eq_false_iff] at h
  simpa using KeyMap.any_eq_false_iff.mp h.1 k a ha

theorem Balanced.deleteTerminalUpload (hB : Balanced quotas begun s)
    (identity : MultipartIdentity) : Balanced quotas begun (deleteTerminalUpload s identity).2 := by
  rw [Staging.deleteTerminalUpload]
  split
  · exact hB
  split
  · exact hB
  next hnone =>
  simp only [Bool.or_eq_true, not_or, Bool.not_eq_true] at hnone
  refine ⟨hB.accounts.of_removed rfl fun id => ?_, hB.tickets.of_parts rfl fun _ _ h => h⟩
  simp only [get?_erase]
  split
  next hid =>
    subst hid
    exact .inr ⟨rfl, fun k a ha => holdsArtifacts_false hnone.2 ha⟩
  · exact .inl rfl

theorem Balanced.retireTerminalUploads (hB : Balanced quotas begun s) (now : Int) (limit : Nat) :
    Balanced quotas begun (retireTerminalUploads s now limit).2 := by
  refine ⟨hB.accounts.of_removed rfl fun id => ?_, hB.tickets.of_parts rfl fun _ _ h => h⟩
  simp only [Staging.retireTerminalUploads, get?_removeUploads]
  split
  next hid =>
    obtain ⟨u, hu, rfl⟩ := mem_map.mp hid
    have hret := (mem_filter.mp (mem_of_mem_take hu)).2
    simp only [isRetirable, Bool.and_eq_true, Bool.not_eq_true'] at hret
    exact .inr ⟨rfl, fun k a ha => holdsArtifacts_false hret.2 ha⟩
  · exact .inl rfl

theorem Balanced.reapExpired (hB : Balanced quotas begun s) (now : Int) (limit : Nat) :
    Balanced quotas begun (reapExpired s now limit).2 := by
  refine ⟨hB.accounts.of_uploads rfl ?_ ?_,
    hB.tickets.of_parts rfl fun _ _ h => get?_extractParts h⟩
  · intro id u' hu'
    simp only [Staging.reapExpired, extractParts, get?_mapValues] at hu'
    obtain ⟨u, hu, rfl⟩ := Option.map_eq_some_iff.mp hu'
    refine ⟨u, hu, ?_⟩
    split
    · exact ⟨rfl, rfl, rfl, rfl⟩
    · exact .refl u
  · intro k a ha
    obtain ⟨u, hu⟩ := hB.accounts.owned k a ha
    simp only [Staging.reapExpired, extractParts, get?_mapValues, hu]
    exact ⟨_, rfl⟩

theorem Balanced.rehash (hB : Balanced quotas begun s) (hs : SameContents s s') :
    Balanced quotas begun s' := by
  obtain ⟨hA, hT⟩ := hB
  have hup := fun k => (hs.uploads.get?_eq k).symm
  have hat := fun k => (hs.attempts.get?_eq k).symm
  have hpa := fun k => (hs.parts.get?_eq k).symm
  constructor
  · constructor
    case keyed => simpa only [hup] using hA.keyed
    case owned => simpa only [hup, hat] using hA.owned
    case reserved => simpa only [hup, ← hs.attempts.sumBy_eq] using hA.reserved
    case staged => simpa only [hup, ← hs.attempts.sumBy_eq] using hA.staged
    case limit => simpa only [hup] using hA.limit
    case word => simpa only [hup] using hA.word
    case tenant => simpa only [← hs.uploads.sumBy_eq] using hA.tenant
    case global => simpa only [← hs.uploads.sumBy_eq] using hA.global
  · constructor
    case named => exact hT.named
    case unique => exact hT.unique
    case attempts => simpa only [hat] using hT.attempts
    case parts => simpa only [hpa, hat] using hT.parts

end Books

/-! ### Whole histories -/

/-- The artifact key that `begin_part` draws. -/
def Event.draws? : Event → Option String
  | .call env (.beginPart identity partNumber _ _) =>
    some (formatArtifactKey identity partNumber env.uuid)
  | _ => none

/-- The ticket that is passed back, with the identity it is passed back with. -/
def Event.returns? : Event → Option (MultipartIdentity × PendingPart)
  | .call _ (.commitPart identity pending _) => some (identity, pending)
  | .call _ (.discardPending identity pending) => some (identity, pending)
  | _ => none

/-- `replace_part` charges for parts without an attempt; the gateway does not call it. -/
def Event.isReplacement : Event → Bool
  | .call _ (.replacePart _ _) => true
  | _ => false

/-- How the gateway uses the repository: uploads are new and start with zero counters, the UUID of
a new artifact key is new, and a ticket is passed back with the identity it was begun with. -/
structure Orderly (h : History) (e : Event) : Prop where
  uploads : FreshUploads h e
  zero : ∀ upload ∈ e.creates?, upload.stagedBytes = 0 ∧ upload.reservedBytes = 0
  keys : ∀ key ∈ e.draws?, ∀ x ∈ h.begun, x.2.artifactKey ≠ key
  tickets : ∀ x ∈ e.returns?, x ∈ h.begun
  parts : e.isReplacement = false

instance (h : History) (e : Event) : Decidable (Orderly h e) :=
  decidable_of_iff
    (FreshUploads h e ∧
      (∀ upload ∈ e.creates?, upload.stagedBytes = 0 ∧ upload.reservedBytes = 0) ∧
      (∀ key ∈ e.draws?, ∀ x ∈ h.begun, x.2.artifactKey ≠ key) ∧
      (∀ x ∈ e.returns?, x ∈ h.begun) ∧ e.isReplacement = false)
    ⟨fun h => ⟨h.1, h.2.1, h.2.2.1, h.2.2.2.1, h.2.2.2.2⟩,
      fun h => ⟨h.uploads, h.zero, h.keys, h.tickets, h.parts⟩⟩

/-- An event that brings nothing from outside is orderly. -/
theorem Orderly.of_none {h : History} {e : Event} (hc : e.creates? = none) (hd : e.draws? = none)
    (hr : e.returns? = none) (hp : e.isReplacement = false) : Orderly h e where
  uploads := .of_none hc
  zero upload hu := by
    rw [hc] at hu
    cases hu
  keys key hk := by
    rw [hd] at hk
    cases hk
  tickets x hx := by
    rw [hr] at hx
    cases hx
  parts := hp

section Histories

variable {quotas : StagingQuotaLimits} {env : CallEnv} {h : History}

theorem Balanced.beginPart {partNumber : Nat} {now : Int} (hB : Balanced quotas h.begun h.state)
    (hkey : ∀ x ∈ h.begun,
      x.2.artifactKey ≠ formatArtifactKey identity partNumber env.uuid) :
    Balanced quotas
      (h.next quotas env (.beginPart identity partNumber reservedBytes now)).begun
      (beginPart quotas env h.state identity partNumber reservedBytes now).2 := by
  have hbegun (o : Outcome PendingPart)
      (ho : Staging.beginPart quotas env h.state identity partNumber reservedBytes now = o) :
      (h.next quotas env (.beginPart identity partNumber reservedBytes now)).begun =
        (match o.1 with
          | .ok pending => [(identity, pending)]
          | .error _ => []) ++ h.begun := by
    simp only [History.begun, History.next, filterMap_cons, Entry.begun?, Call.run,
      Outcome.reply, ho]
    cases o.1 <;> rfl
  obtain ⟨e, he⟩ | ⟨upload, pending, attempt, hupload, hpos, hfits, htenant, hglobal, rfl, he⟩ :=
    beginPart_cases quotas env h.state identity partNumber reservedBytes now
  · rw [hbegun _ he, he]
    exact hB
  · rw [hbegun _ he, he]
    obtain ⟨hA, hT⟩ := hB
    obtain ⟨hu, hident⟩ := authorized_eq_some hupload
    obtain ⟨hlimit, hword⟩ := fitsUpload_iff hfits
    rw [hA.usedBytes_eq] at htenant hglobal
    have htenant := fitsQuota_iff htenant
    have hglobal := fitsQuota_iff hglobal
    refine ⟨hA.open hu ?_ hlimit hword ?_ ?_ now, hT.open rfl hkey now⟩
    · cases ha : h.state.attempts.get?
          (PendingPart.make identity partNumber attempt reservedBytes env.uuid).artifactKey with
      | none => rfl
      | some a =>
        obtain ⟨x, hx, hk, -⟩ := hT.attempts _ a ha
        exact absurd hk (hkey x hx)
    · rw [hident]
      exact htenant.1
    · -- the total is not cut off: it leaves room for the reservation
      obtain ⟨hquota, hroom⟩ := hglobal
      simp only [PendingPart.make] at hquota hroom ⊢
      omega

theorem Balanced.next {c : Call} (hB : Balanced quotas h.begun h.state)
    (hknown : ∀ id u, h.state.uploads.get? id = some u → id ∈ h.created)
    (ho : Orderly h (.call env c)) :
    Balanced quotas (h.next quotas env c).begun (h.next quotas env c).state := by
  cases c with
  | create upload =>
    refine hB.create ?_ (ho.zero upload rfl)
    cases hu : h.state.uploads.get? upload.identity.uploadId with
    | none => rfl
    | some u => exact absurd (hknown _ u hu) (ho.uploads upload rfl)
  | getAuthorized | listParts =>
    simp only [History.next, Call.run, Outcome.reply, Staging.getAuthorized, Staging.listParts]
    split <;> exact hB
  | replacePart => cases ho.parts
  | beginPart => exact hB.beginPart (ho.keys _ rfl)
  | commitPart identity pending part =>
    have hx := ho.tickets _ rfl
    obtain ⟨-, hA, hT⟩ := hB.accounts.commitPart env part hB.tickets hx
    exact ⟨hA, hT⟩
  | discardPending identity pending =>
    obtain ⟨-, hA, hT⟩ :=
      hB.accounts.confirmArtifactDeleted env pending.artifactKey hB.tickets
    exact ⟨hA, hT⟩
  | cleanupCandidates => exact hB
  | confirmArtifactDeleted artifactKey =>
    obtain ⟨-, hA, hT⟩ := hB.accounts.confirmArtifactDeleted env artifactKey hB.tickets
    exact ⟨hA, hT⟩
  | knownArtifactKeys => exact hB
  | acquireCompletion | renewCompletion | completeCompletion =>
    simp only [History.next, Call.run, Outcome.reply, Staging.acquireCompletion,
      Staging.renewCompletion, Staging.completeCompletion]
    repeat' split
    all_goals try exact hB
    exact hB.of_modify rfl rfl (fun u => ⟨rfl, rfl, rfl, rfl⟩) fun _ _ h => h
  | checkCompletionLease =>
    simp only [History.next, Call.run, Outcome.reply, Staging.checkCompletionLease]
    repeat' split
    all_goals exact hB
  | abort identity now => exact hB.abort identity now
  | deleteTerminalUpload identity => exact hB.deleteTerminalUpload identity
  | retireTerminalUploads now limit => exact hB.retireTerminalUploads now limit
  | reapExpired now limit => exact hB.reapExpired now limit

theorem Balanced.init : Balanced quotas [] new := by
  constructor
  · constructor
    case tenant => exact fun _ => Nat.zero_le _
    case global => exact Nat.zero_le _
    all_goals
      intro k v hv
      simp [new] at hv
  · constructor
    case named => exact fun x hx => by cases hx
    case unique => exact fun x hx => by cases hx
    all_goals
      intro k v hv
      simp [new] at hv

theorem balanced_of_reach (r : Reach History.Init (Guarded (Step quotas) Orderly) h) :
    Balanced quotas h.begun h.state := by
  refine Reach.invariant (I := fun h => Balanced quotas h.begun h.state) ?_ ?_ r
  · rintro _ rfl
    exact .init
  · rintro h e h' r hB ⟨hstep, ho⟩
    cases hstep with
    | call =>
      have hF := fencing_of_reach (r.mono fun _ _ _ hs => ⟨hs.1, hs.2.uploads⟩)
      exact hB.next hF.known ho
    | rehash hs => exact hB.rehash hs

/-- **The counters are the sums of the attempts, within every limit.**  In every history in which
the repository is used as the gateway uses it, the books agree, and the next call of `commit_part`,
`discard_pending` or `confirm_artifact_deleted` cannot underflow a counter. -/
theorem quota_accounting (r : Reach History.Init (Guarded (Step quotas) Orderly) h) :
    (∀ id u, h.state.uploads.get? id = some u →
      u.reservedBytes = h.state.attempts.sumBy (reservation id) ∧
      u.stagedBytes = h.state.attempts.sumBy (stagedSize id) ∧
      u.stagedBytes + u.reservedBytes ≤ u.snapshot.maxStagedBytes) ∧
    (∀ tenantId, h.state.uploads.sumBy (tenantCharge tenantId) ≤ quotas.tenantBytes) ∧
    h.state.uploads.sumBy globalCharge ≤ quotas.globalBytes ∧
    (∀ env identity pending part, (identity, pending) ∈ h.begun →
      ∀ m, (commitPart env h.state identity pending part).1 ≠ .error (.persistence m)) ∧
    (∀ env identity pending, (discardPending env h.state identity pending).1 = .ok ()) ∧
    (∀ env artifactKey, (confirmArtifactDeleted env h.state artifactKey).1 = .ok ()) := by
  obtain ⟨hA, hT⟩ := balanced_of_reach r
  refine ⟨?_, hA.tenant, hA.global, ?_, ?_, ?_⟩
  · intro id u hu
    exact ⟨hA.reserved id u hu, hA.staged id u hu, hA.limit id u hu⟩
  · intro env identity pending part hx
    exact (hA.commitPart env part hT hx).1
  · intro env identity pending
    exact (hA.confirmArtifactDeleted env pending.artifactKey hT).1
  · intro env artifactKey
    exact (hA.confirmArtifactDeleted env artifactKey hT).1

end Histories

/-- A committed part, and a second attempt at it that is still pending. -/
def secondAttemptScript : Script :=
  sampleScript ++ [(⟨20, "b"⟩, .beginPart sampleIdentity 1 50 20)]

theorem second_attempt_accounting :
    ((History.new.runScript sampleQuotas secondAttemptScript).state.uploads.get? "upload").map
        (fun u => (u.stagedBytes, u.reservedBytes)) = some (30, 50) ∧
      (History.new.runScript sampleQuotas secondAttemptScript).state.uploads.sumBy
        (tenantCharge "tenant") ≤ 1000 := by
  have r : Reach History.Init (Guarded (Step sampleQuotas) Orderly)
      (History.new.runScript sampleQuotas secondAttemptScript) :=
    History.reach_runScript (.init rfl) (by decide +kernel)
  exact ⟨by decide +kernel, (quota_accounting r).2.1 "tenant"⟩

end S4.Staging
