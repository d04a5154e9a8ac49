import S4.Transaction.Rules

/-!
# Transaction — Exclusive reconciliation

Reconcilers claim operations for a lease and then run `reconcile` on them, effect by effect, while
others do the same.  A lease keeps others away as long as it is in the record.  But `transition`
takes it out: an operation that its reconciler has moved on, from `INTENT` or `OPEN` to `ABORTING`
or from `COMPLETING` to `COMMIT_UNKNOWN`, has no lease for the rest of the run, and only its age
keeps it from being claimed again.
-/

namespace S4.Transaction

open Lib Method List Journal
open Managed (Uuid)

/-! ### Running reconcilers -/

/-- A run of `reconcile` on an operation that was claimed until `leaseUntil`. -/
structure ReconcileTask where
  owner : String
  id : Uuid
  leaseUntil : Int
  program : Prog Effect Answer (Except TransactionError Unit × OperationReconciler)

/-- The run of `reconcile` that follows a claim. -/
def ReconcileTask.start (pages : Nat) (reconciler : OperationReconciler) (leaseUntil : Int)
    (operation : OperationRecord) : ReconcileTask where
  owner := reconciler.owner
  id := operation.id
  leaseUntil := leaseUntil
  program := OperationReconciler.reconcile pages operation reconciler

structure Reconciliation where
  world : World
  tasks : List ReconcileTask

/-- What the reconcilers do. -/
inductive ReconcileEvent where
  | claimOne (reconciler : OperationReconciler) (id : Uuid) (staleBefore leaseUntil : Int)
      (pages : Nat)
  | claimMany (reconciler : OperationReconciler) (staleBefore leaseUntil : Int) (limit pages : Nat)
  | act (n : Nat)
  | finish (n : Nat)
  | drift

namespace Reconciliation

/-- `claim_reconcilable_operation` at the present time. -/
def claimOne (c : Reconciliation) (owner : String) (id : Uuid) (staleBefore leaseUntil : Int) :
    Except JournalError (Option OperationRecord) × Journal :=
  c.world.journal.claimReconcilableOperation c.world.clock id owner staleBefore leaseUntil

/-- `claim_reconcilable` at the present time. -/
def claimMany (c : Reconciliation) (owner : String) (staleBefore leaseUntil : Int) (limit : Nat) :
    Except JournalError (List OperationRecord) × Journal :=
  c.world.journal.claimReconcilable c.world.clock owner staleBefore leaseUntil limit

/-- The operations that a claim has returned. -/
def claimed (answer : Except JournalError (Option OperationRecord)) : List OperationRecord :=
  match answer with
  | .ok (some operation) => [operation]
  | _ => []

def claimedAll (answer : Except JournalError (List OperationRecord)) : List OperationRecord :=
  match answer with
  | .ok operations => operations
  | .error _ => []

end Reconciliation

/-- The steps of the reconcilers, in any interleaving. -/
inductive ReconcileStep : Reconciliation → ReconcileEvent → Reconciliation → Prop where
  | claimOne {c : Reconciliation} (reconciler : OperationReconciler) (id : Uuid)
      (staleBefore leaseUntil : Int) (pages : Nat) :
      ReconcileStep c (.claimOne reconciler id staleBefore leaseUntil pages)
        ⟨{ c.world with journal := (c.claimOne reconciler.owner id staleBefore leaseUntil).2 },
          (Reconciliation.claimed (c.claimOne reconciler.owner id staleBefore leaseUntil).1).map
            (.start pages reconciler leaseUntil) ++ c.tasks⟩
  | claimMany {c : Reconciliation} (reconciler : OperationReconciler)
      (staleBefore leaseUntil : Int) (limit pages : Nat) :
      ReconcileStep c (.claimMany reconciler staleBefore leaseUntil limit pages)
        ⟨{ c.world with journal := (c.claimMany reconciler.owner staleBefore leaseUntil limit).2 },
          (Reconciliation.claimedAll
            (c.claimMany reconciler.owner staleBefore leaseUntil limit).1).map
              (.start pages reconciler leaseUntil) ++ c.tasks⟩
  | act {c : Reconciliation} {n : Nat} {t : ReconcileTask} {e : Effect}
      {k : Answer e → Prog Effect Answer (Except TransactionError Unit × OperationReconciler)}
      {r : Answer e} {w : World} (ht : c.tasks[n]? = some t) (hp : t.program = .call e k)
      (hw : Effect.Performs (.reconciler n) e c.world r w) :
      ReconcileStep c (.act n) ⟨w, c.tasks.set n { t with program := k r }⟩
  | finish {c : Reconciliation} {n : Nat} {t : ReconcileTask}
      {x : Except TransactionError Unit × OperationReconciler} (ht : c.tasks[n]? = some t)
      (hp : t.program = .ret x) : ReconcileStep c (.finish n) ⟨c.world, c.tasks.eraseIdx n⟩
  | drift {c : Reconciliation} {w : World} (hw : c.world.Drifts w) :
      ReconcileStep c .drift ⟨w, c.tasks⟩

/-- Nobody is reconciling, and every record is under its own identifier. -/
def ReconcileInit (c : Reconciliation) : Prop :=
  c.tasks = [] ∧ ∀ id op, c.world.journal.operations.get? id = some op → op.id = id

/-! ### What the effects of `reconcile` do to a lease -/

variable {P : Effect → Prop} {id : Uuid} {e : Effect} {w : World} {r : Answer e}
  {op operation : OperationRecord} {c c' : Reconciliation} {reconciler : OperationReconciler}
  {pages : Nat} {uploadId : Option String} {staleBefore : Int} {leaseUntil : Int} {id : Uuid}

section Calls

variable {σ α : Type}

theorem journal_calls {m : TxMethod σ (Except JournalError α)}
    (h : m.Calls P) : (journal m).Calls P :=
  calls_bind h fun _ => calls_ofExcept _

theorem backend_calls {m : TxMethod σ (Except BackendError α)}
    (h : m.Calls P) : (backend m).Calls P :=
  calls_bind h fun _ => calls_ofExcept _

theorem discoverPages_leavesLeases (operation : OperationRecord) (pages : Nat)
    (keyMarker uploadIdMarker : Option String) (found : List DiscoveredUpload) :
    (discoverPages operation pages keyMarker uploadIdMarker found :
      TxMethod σ (List DiscoveredUpload)).Calls Effect.LeavesLeases := by
  induction pages generalizing keyMarker uploadIdMarker found with
  | zero => exact calls_bind (calls_perform trivial) fun r => r.elim
  | succ pages ih =>
    refine calls_bind (backend_calls (calls_perform trivial)) fun page => ?_
    dsimp only
    split
    · exact calls_pure _
    · split
      · exact calls_throw _
      · exact ih _ _ _

theorem deleteVersions_leavesLeases {versionId : Option String} {versions : List String} :
    (deleteVersions operation versionId versions : TxMethod σ Unit).Calls
      Effect.LeavesLeases := by
  induction versions with
  | nil => exact calls_pure _
  | cons superseded rest ih =>
    rw [deleteVersions]
    split
    · exact calls_throw _
    · exact calls_bind (backend_calls (calls_perform trivial)) fun _ => ih

end Calls

namespace OperationReconciler

theorem abortUploads_leavesLeases {uploads : List DiscoveredUpload} :
    (abortUploads operation uploads).Calls Effect.LeavesLeases := by
  induction uploads with
  | nil => exact calls_pure _
  | cons upload rest ih =>
    exact calls_bind (backend_calls (calls_perform trivial)) fun _ => ih

theorem abortDiscovered_leavesLeases :
    (abortDiscovered pages operation).Calls Effect.LeavesLeases :=
  calls_bind (discoverPages_leavesLeases operation pages none none [])
    fun _ => abortUploads_leavesLeases

theorem adoptCompletion_leavesLeases {found : StoredObjectMeta} :
    (adoptCompletion operation found).Calls Effect.LeavesLeases := by
  refine calls_bind calls_get fun s => ?_
  refine calls_bind deleteVersions_leavesLeases fun _ => ?_
  refine calls_bind (journal_calls (calls_perform trivial)) fun _ => ?_
  exact journal_calls (calls_perform trivial)

theorem adoptAbsence_leavesLeases : (adoptAbsence pages operation).Calls Effect.LeavesLeases := by
  refine calls_bind (calls_perform trivial) fun observedAt => ?_
  refine calls_bind (journal_calls (calls_perform trivial)) fun confirmed => ?_
  split
  · refine calls_bind abortDiscovered_leavesLeases fun _ => ?_
    refine calls_bind (journal_calls (calls_perform trivial)) fun _ => ?_
    exact journal_calls (calls_perform trivial)
  · exact journal_calls (calls_perform trivial)

theorem reconcileUnknown_leavesLeases :
    (reconcileUnknown pages operation).Calls Effect.LeavesLeases := by
  refine calls_bind (backend_calls (calls_perform trivial)) fun probe => ?_
  cases probe with
  | committed => exact adoptCompletion_leavesLeases
  | provenAbsent => exact journal_calls (calls_perform trivial)
  | provenAbsentExact => exact adoptAbsence_leavesLeases
  | inconclusive => exact calls_pure _

theorem finishAbort_leavesLeases :
    (finishAbort pages operation uploadId).Calls Effect.LeavesLeases := by
  have hrest : (do
      abortDiscovered pages operation
      journal (transition operation.id .aborting .provenAborted none) :
        TxMethod OperationReconciler Unit).Calls Effect.LeavesLeases :=
    calls_bind abortDiscovered_leavesLeases fun _ =>
      journal_calls (calls_perform trivial)
  cases uploadId with
  | none => exact hrest
  | some =>
    exact calls_bind (backend_calls (calls_perform trivial)) fun _ => hrest

theorem reconcile_leavesLeases : (reconcile pages operation).Calls Effect.LeavesLeases := by
  refine calls_bind calls_get fun s => ?_
  refine calls_bind (journal_calls (calls_perform trivial)) fun _ => ?_
  split
  · exact calls_bind (journal_calls (calls_perform trivial)) fun _ =>
      finishAbort_leavesLeases
  · exact calls_bind (journal_calls (calls_perform trivial)) fun _ =>
      finishAbort_leavesLeases
  · exact finishAbort_leavesLeases
  · exact calls_bind (journal_calls (calls_perform trivial)) fun _ =>
      reconcileUnknown_leavesLeases
  · exact reconcileUnknown_leavesLeases
  · exact calls_pure _
  · exact calls_pure _

end OperationReconciler

/-- Records stay under their identifiers, and no lease is given out. -/
def Journal.Loosens (j j' : Journal) : Prop :=
  ∀ id op', j'.operations.get? id = some op' → ∃ op, j.operations.get? id = some op ∧
    op'.id = op.id ∧ (op'.leaseExpiresAtMs = op.leaseExpiresAtMs ∨ op'.leaseExpiresAtMs = none)

namespace Journal

variable {j : Journal} {now : Int}

theorem Loosens.of_operations_eq {j' : Journal} (h : j'.operations = j.operations) :
    j.Loosens j' := by
  intro id op' ho
  exact ⟨op', h ▸ ho, rfl, .inl rfl⟩

theorem update_loosens {α : Type} {f : OperationRecord → Except JournalError (α × OperationRecord)}
    (hf : ∀ op a op', f op = .ok (a, op') → op'.id = op.id ∧
      (op'.leaseExpiresAtMs = op.leaseExpiresAtMs ∨ op'.leaseExpiresAtMs = none)) :
    j.Loosens (j.update id f).2 := by
  rw [update]
  split
  · exact .of_operations_eq rfl
  next op hop =>
  split
  · exact .of_operations_eq rfl
  next a op' hok =>
  intro k opk hk
  obtain ⟨rfl, rfl⟩ | ⟨-, hk⟩ := KeyMap.get?_insert_cases hk
  · exact ⟨op, hop, hf op a op' hok⟩
  · exact ⟨opk, hk, rfl, .inl rfl⟩

theorem setOpen_loosens : j.Loosens (j.setOpen now id uploadId).2 := by
  refine update_loosens fun op a op' h => ?_
  rw [openRecord] at h
  split at h <;> cases h
  exact ⟨rfl, .inl rfl⟩

theorem setExpected_loosens {expected : ExpectedObject} :
    j.Loosens (j.setExpected now id expected).2 := by
  refine update_loosens fun op a op' h => ?_
  rw [expectRecord] at h
  split at h <;> cases h
  exact ⟨rfl, .inl rfl⟩

theorem transition_loosens {expected next : OperationState}
    {committed : Option StoredObjectMeta} :
    j.Loosens (j.transition now id expected next committed).2 := by
  rw [transition]
  split
  · exact .of_operations_eq rfl
  · split
    · exact .of_operations_eq rfl
    · refine update_loosens fun op a op' h => ?_
      rw [moveRecord] at h
      split at h <;> cases h
      exact ⟨rfl, .inr rfl⟩

theorem recordMutationLaunch_loosens {notBefore : Int} :
    j.Loosens (j.recordMutationLaunch now id notBefore).2 := by
  refine update_loosens fun op a op' h => ?_
  rw [launchRecord] at h
  split at h <;> cases h
  exact ⟨rfl, .inl rfl⟩

theorem confirmExactAbsence_loosens {observedAt separation : Int} :
    j.Loosens (j.confirmExactAbsence now id observedAt separation).2 := by
  refine update_loosens fun op a op' h => ?_
  rw [absenceRecord] at h
  split at h
  · cases h
    exact ⟨rfl, .inl rfl⟩
  · split at h <;> cases h <;> exact ⟨rfl, .inl rfl⟩

theorem recordPart_loosens {part : PartRecord} : j.Loosens (j.recordPart part).2 := by
  refine .of_operations_eq ?_
  rw [recordPart]
  split
  · split <;> rfl
  · rfl

theorem appendEvidence_loosens {record : EvidenceRecord} :
    j.Loosens (j.appendEvidence record).2 := by
  refine .of_operations_eq ?_
  rw [appendEvidence]
  split
  · split <;> rfl
  · rfl

end Journal

theorem JournalCall.next_loosens {j : Journal} {now : Int} {c : JournalCall}
    (hc : c.LeavesLeases) : j.Loosens (c.next now j) := by
  cases c with
  | insertIntent | claimReconcilable | claimReconcilableOperation => exact hc.elim
  | setOpen => exact setOpen_loosens
  | setExpected => exact setExpected_loosens
  | transition => exact transition_loosens
  | recordPart => exact recordPart_loosens
  | appendEvidence => exact appendEvidence_loosens
  | recordMutationLaunch => exact recordMutationLaunch_loosens
  | confirmExactAbsence =>
    exact confirmExactAbsence_loosens

/-- An effect that gives out no lease leaves the clock and loosens the journal at most. -/
theorem Effect.Performs.loosens {i : Agent} {w' : World}
    (he : e.LeavesLeases) (h : Effect.Performs i e w r w') :
    w'.clock = w.clock ∧ w.journal.Loosens w'.journal := by
  obtain ⟨hclock, hj | ⟨c, hc, -, hj⟩⟩ := h.callsAt
  · exact ⟨hclock, .of_operations_eq (by rw [hj])⟩
  · exact ⟨hclock, hj ▸ JournalCall.next_loosens (hc he)⟩

/-! ### Claims -/

theorem Journal.claimable_iff {now : Int} :
    claimable now staleBefore op = true ↔ op.state.isTerminal = false ∧
      op.updatedAtMs ≤ staleBefore ∧ ∀ t, op.leaseExpiresAtMs = some t → t < now := by
  simp only [claimable, Bool.and_eq_true, Bool.not_eq_true', decide_eq_true_eq, and_assoc]
  cases op.leaseExpiresAtMs <;> simp

/-- The record under a new lease. -/
def OperationRecord.leased (op : OperationRecord) (owner : String) (leaseUntil : Int) :
    OperationRecord :=
  { op with leaseOwner := some owner, leaseExpiresAtMs := some leaseUntil }

namespace Journal

variable {j : Journal} {now : Int} {owner : String} {staleBefore leaseUntil : Int}

/-- A claim of one operation returns nothing and changes nothing, or leases a claimable record. -/
theorem claimReconcilableOperation_cases (j : Journal) (now : Int) (id : Uuid) (owner : String)
    (staleBefore leaseUntil : Int) :
    (Reconciliation.claimed
        (j.claimReconcilableOperation now id owner staleBefore leaseUntil).1 = [] ∧
      ∀ k, (j.claimReconcilableOperation now id owner staleBefore leaseUntil).2.operations.get? k =
        j.operations.get? k) ∨
    ∃ op, j.operations.get? id = some op ∧ claimable now staleBefore op = true ∧
      Reconciliation.claimed
        (j.claimReconcilableOperation now id owner staleBefore leaseUntil).1 =
          [op.leased owner leaseUntil] ∧
      ∀ k, (j.claimReconcilableOperation now id owner staleBefore leaseUntil).2.operations.get? k =
        if k = id then some (op.leased owner leaseUntil) else j.operations.get? k := by
  rw [claimReconcilableOperation]
  split
  · rw [update]
    split
    · exact .inl ⟨rfl, fun _ => rfl⟩
    next op hop =>
    by_cases hno : op.state.isTerminal = true ∨ staleBefore < op.updatedAtMs ∨
        op.leaseExpiresAtMs.any (now ≤ ·) = true
    · rw [claimRecord, if_pos hno]
      refine .inl ⟨rfl, fun k => ?_⟩
      simp only [KeyMap.get?_insert]
      split
      next he => rw [he, hop]
      · rfl
    · rw [claimRecord, if_neg hno]
      refine .inr ⟨op, hop, ?_, rfl, fun k => ?_⟩
      · simp only [not_or, Bool.not_eq_true, Int.not_lt] at hno
        refine claimable_iff.mpr ⟨hno.1, hno.2.1, fun t ht => ?_⟩
        have hlease := hno.2.2
        rw [ht] at hlease
        simpa using hlease
      · simp only [KeyMap.get?_insert]
        rfl
  · exact .inl ⟨rfl, fun _ => rfl⟩

/-- The ids that are claimed together belong to claimable records. -/
theorem mem_claimableIds {limit : Nat}
    (h : id ∈ ((j.claimableIds now staleBefore).take limit).map Prod.snd) :
    ∃ k op, j.operations.get? k = some op ∧ claimable now staleBefore op = true ∧ op.id = id := by
  obtain ⟨x, hx, rfl⟩ := mem_map.mp h
  have hx' := mem_of_mem_take hx
  rw [claimableIds, mem_insertionSort] at hx'
  obtain ⟨op, hop, rfl⟩ := mem_map.mp hx'
  obtain ⟨hvalue, hclaim⟩ := mem_filter.mp hop
  obtain ⟨k, hk⟩ := KeyMap.mem_values_iff.mp hvalue
  exact ⟨k, op, hk, hclaim, rfl⟩

theorem mem_claimAll {operations : KeyMap Uuid OperationRecord} {ids : List Uuid}
    {claimed : OperationRecord} (h : claimed ∈ (claimAll owner leaseUntil operations ids).1) :
    ∃ id op, id ∈ ids ∧ operations.get? id = some op ∧ claimed.id = op.id := by
  induction ids generalizing operations with
  | nil => cases h
  | cons k rest ih =>
    rw [claimAll] at h
    split at h
    · obtain ⟨id, op, hid, hop, he⟩ := ih h
      exact ⟨id, op, mem_cons_of_mem _ hid, hop, he⟩
    next op hk =>
    obtain rfl | h := mem_cons.mp h
    · exact ⟨k, op, mem_cons_self, hk, rfl⟩
    · obtain ⟨id, op', hid, hop, he⟩ := ih h
      obtain ⟨-, rfl⟩ | ⟨-, hop⟩ := KeyMap.get?_insert_cases hop
      · exact ⟨k, op, mem_cons_self, hk, he⟩
      · exact ⟨id, op', mem_cons_of_mem _ hid, hop, he⟩

end Journal

/-! ### Exclusion -/

/-- The operation is being reconciled under a lease that has not run out. -/
def Reconciliation.Busy (c : Reconciliation) (id : Uuid) : Prop :=
  ∃ t ∈ c.tasks, t.id = id ∧ c.world.clock < t.leaseUntil

/-- The operation, if it is being reconciled and has lost its lease, is not old enough for the
cutoff. -/
def Reconciliation.KeepsOff (c : Reconciliation) (staleBefore : Int) (id : Uuid) : Prop :=
  c.Busy id → ∀ op, c.world.journal.operations.get? id = some op → op.state.isTerminal = false →
    op.leaseExpiresAtMs = none → staleBefore < op.updatedAtMs

/-- The claims whose cutoff is before the last update of every operation in progress that has lost
its lease. -/
def RespectsProgress (c : Reconciliation) : ReconcileEvent → Prop
  | .claimOne _ id staleBefore _ _ => c.KeepsOff staleBefore id
  | .claimMany _ staleBefore _ _ _ => ∀ id, c.KeepsOff staleBefore id
  | _ => True

/-- The invariant: a record in progress has the lease of its reconciler, or none. -/
structure Exclusive (c : Reconciliation) : Prop where
  keyed : ∀ id op, c.world.journal.operations.get? id = some op → op.id = id
  programs : ∀ t ∈ c.tasks, t.program.Calls Effect.LeavesLeases
  leases : ∀ t ∈ c.tasks, c.world.clock < t.leaseUntil → ∀ op,
    c.world.journal.operations.get? t.id = some op →
      op.leaseExpiresAtMs = none ∨ op.leaseExpiresAtMs = some t.leaseUntil

theorem Exclusive.not_claimable (h : Exclusive c)
    (hbusy : c.Busy id) (hoff : c.KeepsOff staleBefore id)
    (hop : c.world.journal.operations.get? id = some op) :
    ¬ claimable c.world.clock staleBefore op = true := by
  intro hclaim
  obtain ⟨hlive, hstale, hexpired⟩ := claimable_iff.mp hclaim
  obtain ⟨t, ht, rfl, hclock⟩ := hbusy
  obtain hlease | hlease := h.leases t ht hclock op hop
  · have := hoff ⟨t, ht, rfl, hclock⟩ op hop hlive hlease
    omega
  · have := hexpired _ hlease
    omega

theorem Exclusive.claimOne (h : Exclusive c)
    (pages : Nat) (hoff : c.KeepsOff staleBefore id) :
    Exclusive
      ⟨{ c.world with journal := (c.claimOne reconciler.owner id staleBefore leaseUntil).2 },
        (Reconciliation.claimed (c.claimOne reconciler.owner id staleBefore leaseUntil).1).map
          (.start pages reconciler leaseUntil) ++ c.tasks⟩ := by
  obtain ⟨hnone, hsame⟩ | ⟨op, hop, hclaim, hsome, hget⟩ :=
    c.world.journal.claimReconcilableOperation_cases c.world.clock id reconciler.owner
      staleBefore leaseUntil
  · simp only [Reconciliation.claimOne, hnone, map_nil, nil_append]
    refine ⟨fun k opk hk => h.keyed k opk ?_, h.programs, fun t ht hclock opt hopt => ?_⟩
    · rwa [hsame] at hk
    · refine h.leases t ht hclock opt ?_
      rwa [hsame] at hopt
  · have hfree : ¬ c.Busy id := fun hbusy => h.not_claimable hbusy hoff hop hclaim
    simp only [Reconciliation.claimOne, hsome, map_cons, map_nil, singleton_append]
    refine ⟨fun k opk hk => ?_, fun t ht => ?_, fun t ht hclock opt hopt => ?_⟩
    · simp only [hget] at hk
      split at hk
      next he =>
        cases hk
        exact (h.keyed id op hop).trans he.symm
      · exact h.keyed k opk hk
    · obtain rfl | ht := mem_cons.mp ht
      · exact OperationReconciler.reconcile_leavesLeases _
      · exact h.programs t ht
    · simp only [hget] at hopt
      obtain rfl | ht := mem_cons.mp ht
      · rw [if_pos] at hopt
        · cases hopt
          exact .inr rfl
        · exact h.keyed id op hop
      · have hne : t.id ≠ id := fun he => hfree ⟨t, ht, he, hclock⟩
        rw [if_neg hne] at hopt
        exact h.leases t ht hclock opt hopt

theorem Exclusive.claimMany (h : Exclusive c)
    (limit pages : Nat) (hoff : ∀ id, c.KeepsOff staleBefore id) :
    Exclusive
      ⟨{ c.world with journal := (c.claimMany reconciler.owner staleBefore leaseUntil limit).2 },
        (Reconciliation.claimedAll
          (c.claimMany reconciler.owner staleBefore leaseUntil limit).1).map
            (.start pages reconciler leaseUntil) ++ c.tasks⟩ := by
  have hfree (id : Uuid) (hid : id ∈ ((c.world.journal.claimableIds c.world.clock
      staleBefore).take limit).map Prod.snd) : ¬ c.Busy id := by
    intro hbusy
    obtain ⟨k, op, hk, hclaim, he⟩ := mem_claimableIds hid
    obtain rfl := (h.keyed k op hk).symm.trans he
    exact h.not_claimable hbusy (hoff k) hk hclaim
  simp only [Reconciliation.claimMany, claimReconcilable, Reconciliation.claimedAll]
  refine ⟨fun k opk hk => ?_, fun t ht => ?_, fun t ht hclock opt hopt => ?_⟩
  · simp only [claimAll_get?] at hk
    obtain ⟨op, hop, rfl⟩ := Option.map_eq_some_iff.mp hk
    have hid := h.keyed k op hop
    split <;> exact hid
  · obtain ht | ht := mem_append.mp ht
    · obtain ⟨op, -, rfl⟩ := mem_map.mp ht
      exact OperationReconciler.reconcile_leavesLeases _
    · exact h.programs t ht
  · simp only [claimAll_get?] at hopt
    obtain ⟨op, hop, rfl⟩ := Option.map_eq_some_iff.mp hopt
    obtain ht | ht := mem_append.mp ht
    · obtain ⟨claimed, hclaimed, rfl⟩ := mem_map.mp ht
      obtain ⟨id, op₀, hid, hop₀, he⟩ := mem_claimAll hclaimed
      have hmem : claimed.id ∈ ((c.world.journal.claimableIds c.world.clock
          staleBefore).take limit).map Prod.snd := by
        rw [he, h.keyed id op₀ hop₀]
        exact hid
      refine .inr ?_
      split
      · rfl
      next hnot => exact absurd hmem hnot
    · have hnot : t.id ∉ ((c.world.journal.claimableIds c.world.clock
          staleBefore).take limit).map Prod.snd :=
        fun hid => hfree t.id hid ⟨t, ht, rfl, hclock⟩
      simp only [hnot, if_false]
      exact h.leases t ht hclock op hop

theorem Exclusive.act (h : Exclusive c) {n : Nat} {t : ReconcileTask}
    {k : Answer e → Prog Effect Answer (Except TransactionError Unit × OperationReconciler)}
    (ht : c.tasks[n]? = some t) (hp : t.program = .call e k)
    (hw : Effect.Performs (.reconciler n) e c.world r w) :
    Exclusive ⟨w, c.tasks.set n { t with program := k r }⟩ := by
  have htask := mem_of_getElem? ht
  have hcalls := h.programs t htask
  rw [hp] at hcalls
  obtain ⟨hclock, hloose⟩ := Effect.Performs.loosens hcalls.1 hw
  -- a task of the new list is the one that moved, or was there before
  have hold (t' : ReconcileTask) (ht' : t' ∈ c.tasks.set n { t with program := k r }) :
      t' = { t with program := k r } ∨ t' ∈ c.tasks :=
    (mem_or_eq_of_mem_set ht').symm
  refine ⟨fun id op' hop' => ?_, fun t' ht' => ?_, fun t' ht' hlt op' hop' => ?_⟩
  · obtain ⟨op, hop, hid, -⟩ := hloose id op' hop'
    rw [hid]
    exact h.keyed id op hop
  · obtain rfl | ht' := hold t' ht'
    · exact hcalls.2 r
    · exact h.programs t' ht'
  · have hlease : ∃ t₀ ∈ c.tasks, t₀.id = t'.id ∧ t₀.leaseUntil = t'.leaseUntil := by
      obtain rfl | ht' := hold t' ht'
      · exact ⟨t, htask, rfl, rfl⟩
      · exact ⟨t', ht', rfl, rfl⟩
    obtain ⟨t₀, ht₀, hid, huntil⟩ := hlease
    obtain ⟨op, hop, -, hlease⟩ := hloose _ op' hop'
    rw [← huntil, hclock] at hlt
    rw [← hid] at hop
    rw [← huntil]
    obtain hlease | hlease := hlease
    · rw [hlease]
      exact h.leases t₀ ht₀ hlt op hop
    · exact .inl hlease

theorem Exclusive.drift (h : Exclusive c) (hw : c.world.Drifts w) : Exclusive ⟨w, c.tasks⟩ := by
  obtain ⟨time, htime, rfl⟩ | ⟨n, m, -, -, -, -, rfl⟩ := hw
  · refine ⟨h.keyed, h.programs, fun t ht hlt => h.leases t ht ?_⟩
    simp only at hlt
    omega
  · exact ⟨h.keyed, h.programs, h.leases⟩

theorem exclusive_of_reach
    (r : Reach ReconcileInit (Guarded ReconcileStep RespectsProgress) c) : Exclusive c := by
  refine r.invariant ?_ ?_
  · rintro c ⟨htasks, hkeyed⟩
    refine ⟨hkeyed, fun t ht => ?_, fun t ht => ?_⟩
    all_goals
      rw [htasks] at ht
      cases ht
  · rintro c e c' - h ⟨hstep, hoff⟩
    cases hstep with
    | claimOne reconciler id staleBefore leaseUntil pages => exact h.claimOne pages hoff
    | claimMany reconciler staleBefore leaseUntil limit pages => exact h.claimMany limit pages hoff
    | act ht hp hw => exact h.act ht hp hw
    | finish ht =>
      exact ⟨h.keyed, fun t ht => h.programs t (mem_of_mem_eraseIdx ht),
        fun t ht => h.leases t (mem_of_mem_eraseIdx ht)⟩
    | drift hw => exact h.drift hw

/-- **Reconciliation is exclusive as long as claims respect progress.**  In every run whose claims
all use a cutoff before the last update of every operation in progress that has lost its lease,
nobody is given an operation that a reconciler is still working on within its lease. -/
theorem reconciliation_exclusive {t : ReconcileTask} {owner : String}
    (r : Reach ReconcileInit (Guarded ReconcileStep RespectsProgress) c) (ht : t ∈ c.tasks)
    (hclock : c.world.clock < t.leaseUntil) (hoff : ∀ id, c.KeepsOff staleBefore id) :
    (∀ id, ∀ op ∈ Reconciliation.claimed (c.claimOne owner id staleBefore leaseUntil).1,
      op.id ≠ t.id) ∧
    ∀ limit, ∀ op ∈ Reconciliation.claimedAll (c.claimMany owner staleBefore leaseUntil limit).1,
      op.id ≠ t.id := by
  have h := exclusive_of_reach r
  constructor
  · rintro id op hop he
    obtain ⟨hnone, -⟩ | ⟨op₀, hop₀, hclaim, hsome, -⟩ :=
      c.world.journal.claimReconcilableOperation_cases c.world.clock id owner staleBefore leaseUntil
    · rw [Reconciliation.claimOne, hnone] at hop
      cases hop
    · rw [Reconciliation.claimOne, hsome, mem_singleton] at hop
      subst hop
      have hid : t.id = id := he.symm.trans (h.keyed id op₀ hop₀)
      exact h.not_claimable ⟨t, ht, hid, hclock⟩ (hoff id) hop₀ hclaim
  · rintro limit op hop he
    obtain ⟨id, op₀, hid, hop₀, heq⟩ := mem_claimAll hop
    obtain ⟨k, op₁, hk, hclaim, hid₁⟩ := mem_claimableIds hid
    have hkid : k = id := (h.keyed k op₁ hk).symm.trans hid₁
    subst hkid
    have htid : t.id = k := he.symm.trans (heq.trans (h.keyed k op₀ hop₀))
    exact h.not_claimable ⟨t, ht, htid, hclock⟩ (hoff k) hk hclaim

/-! ### Concrete runs -/

/-- An operation that was opened at time 0 and left alone. -/
def quietOperation : OperationRecord :=
  { OperationRecord.intent ⟨7⟩ 0 ⟨"backend", "bucket", "key", "key"⟩ ⟨none, none, []⟩ with
    state := .open }

/-- Time 5000: nobody is reconciling. -/
def quietReconciliation : Reconciliation where
  world :=
    { journal := ⟨(∅ : KeyMap Uuid OperationRecord).insert ⟨7⟩ quietOperation, ∅, []⟩
      clock := 5000
      uploads := []
      mutations := []
      absences := fun _ _ => none
      aborts := [] }
  tasks := []

theorem quietReconciliation_init : ReconcileInit quietReconciliation := by
  refine ⟨rfl, fun id op h => ?_⟩
  obtain ⟨rfl, rfl⟩ | ⟨-, h⟩ := KeyMap.get?_insert_cases h
  · rfl
  · cases h

def firstReconciler : OperationReconciler := ⟨"first", true⟩

/-- The first reconciler has claimed the operation for thirty seconds. -/
def firstClaim : Reconciliation where
  world := { quietReconciliation.world with
    journal := (quietReconciliation.claimOne "first" ⟨7⟩ 4000 35000).2 }
  tasks := [.start 1 firstReconciler 35000 (quietOperation.leased "first" 35000)]

/-- While the first reconciler has its lease, a second is given nothing. -/
theorem first_claim_exclusive :
    (∀ id, ∀ op ∈ Reconciliation.claimed (firstClaim.claimOne "second" id 4000 36000).1,
      op.id ≠ ⟨7⟩) ∧
    ∀ limit, ∀ op ∈ Reconciliation.claimedAll (firstClaim.claimMany "second" 4000 36000 limit).1,
      op.id ≠ ⟨7⟩ := by
  have hstep : ReconcileStep quietReconciliation (.claimOne firstReconciler ⟨7⟩ 4000 35000 1)
      firstClaim := .claimOne firstReconciler ⟨7⟩ 4000 35000 1
  have r : Reach ReconcileInit (Guarded ReconcileStep RespectsProgress) firstClaim := by
    refine .step (.init quietReconciliation_init) ⟨hstep, ?_⟩
    rintro ⟨t, ht, -⟩
    cases ht
  refine reconciliation_exclusive (t := .start 1 firstReconciler 35000
    (quietOperation.leased "first" 35000)) r mem_cons_self (by decide) fun id _ op hop => ?_
  -- the record has the lease of the first reconciler
  have hj : firstClaim.world.journal.operations =
      ((∅ : KeyMap Uuid OperationRecord).insert ⟨7⟩ quietOperation).insert ⟨7⟩
        (quietOperation.leased "first" 35000) := rfl
  rw [hj] at hop
  obtain ⟨-, rfl⟩ | ⟨hid, hop⟩ := KeyMap.get?_insert_cases hop
  · intro _ hlease
    cases hlease
  · simp [hid] at hop

/-- The world after the first reconciler has moved the operation on, a second and a half later. -/
def movedWorld : World :=
  let journal := (firstClaim.world.journal.appendEvidence
    ⟨⟨1⟩, ⟨7⟩, "reconcile_started", [("state", "OPEN"), ("owner", "first")], 5000⟩).2
  { firstClaim.world with
    journal := (journal.transition 5000 ⟨7⟩ .open .aborting none).2
    clock := 6500 }

/-- The first reconciler is still aborting the operation, within its thirty seconds, and a second
one is given it. -/
theorem moved_operation_claimed_twice :
    ∃ c, Reach ReconcileInit ReconcileStep c ∧
      (∃ t ∈ c.tasks, t.owner = "first" ∧ t.id = ⟨7⟩ ∧ c.world.clock < t.leaseUntil) ∧
      ∃ op ∈ Reconciliation.claimed (c.claimOne "second" ⟨7⟩ 5500 36500).1, op.id = ⟨7⟩ := by
  have r₁ : Reach ReconcileInit ReconcileStep firstClaim :=
    .step (.init quietReconciliation_init) (.claimOne firstReconciler ⟨7⟩ 4000 35000 1)
  have r₂ := r₁.step (.act (n := 0) rfl rfl ⟨⟨1⟩, .inl ⟨rfl, .inl rfl⟩⟩)
  have r₃ := r₂.step (.act (n := 0) rfl rfl (.inl ⟨rfl, .inl rfl⟩))
  have r₄ := r₃.step (.drift (w := movedWorld) (.inl ⟨6500, by decide, rfl⟩))
  have hclaim : ∃ op ∈ Reconciliation.claimed (movedWorld.journal.claimReconcilableOperation 6500
      ⟨7⟩ "second" 5500 36500).1, op.id = ⟨7⟩ := by
    decide +kernel
  exact ⟨_, r₄, ⟨_, mem_cons_self, rfl, rfl, by decide⟩, hclaim⟩

end S4.Transaction
