import S4.Lib.Reach
import S4.Transaction.Journal

/-!
# Transaction — Postgres

`PostgresOperationJournal`: the calls of the journal in memory, but a call is one statement after
another, and the statements of other callers run in between.  Every statement names its row by the
identifier, so that the rows are independent: this is the row of one operation.  A call that reads
and then writes keeps what it has read in `calls`.  The writes of `recordMutationLaunch` and
`confirmExactAbsence` go to the row whatever it has become; that of a claim only asks whether the
row is leased.

**Absence** (`confirmed_of_quiet`).  A confirmation of absence rests on two observations behind the
last launch, in every run in which no launch is recorded while an absence is being confirmed.

**Claims** (`claim_current_of_quiet`).  A claim takes an unsettled operation and returns it in the
state that is stored, in every run in which the state does not change between a selection and its
claim.
-/

namespace S4.Transaction.Postgres

open Lib

variable {call : Pending} {filter : OperationRecord → Bool}
  {set : OperationRecord → OperationRecord} {s s' : Database} {caller : Nat} {statement : Statement}

/-- A call between its statements. -/
inductive Pending where
  | idle
  | launching (notBefore : Int) (model : OperationRecord)
  | observing (observedAt : Int)
  | confirming (observedAt minimumSeparation : Int) (confirmed : Bool)
  | claiming (owner : String) (leaseUntil : Int) (candidate : OperationRecord)
  | claimed (operation : OperationRecord)

/-- The row, and the calls of the callers.  `observations` are those of the absence of the object
since the last launch was recorded, the latest first; no statement reads them. -/
structure Database where
  row : OperationRecord
  calls : Nat → Pending
  observations : List Int

/-- A statement on the row.  `caller` is the one whose call goes on. -/
inductive Statement where
  | setOpen (now : Int) (uploadId : Option String)
  | setExpected (now : Int) (expected : ExpectedObject)
  | transition (now : Int) (expected next : OperationState) (committed : Option StoredObjectMeta)
  | launchFind (caller : Nat) (notBefore : Int)
  | launchUpdate (caller : Nat) (now : Int)
  | absenceFind (caller : Nat) (observedAt minimumSeparation : Int)
  | absenceUpdate (caller : Nat) (now : Int)
  /-- The selection of `claimReconcilable` and of `claimReconcilableOperation`; the limit of the
  first may pass over a row that it selects, and then the call has no statement on this row. -/
  | claimSelect (caller : Nat) (now : Int) (owner : String) (staleBefore leaseUntil : Int)
  | claimUpdate (caller : Nat) (now : Int)
  | return (caller : Nat)

namespace Database

/-- `UPDATE … WHERE id = … AND …`. -/
def updateMany (s : Database) (filter : OperationRecord → Bool)
    (set : OperationRecord → OperationRecord) : Database :=
  if filter s.row then { s with row := set s.row } else s

def setCall (s : Database) (caller : Nat) (call : Pending) : Database :=
  { s with calls := Function.update s.calls caller call }

/-- The row is not leased. -/
def unleased (now : Int) (row : OperationRecord) : Bool := row.leaseExpiresAtMs.all (· < now)

/-- What `confirm_exact_absence` does with the row that it has found. -/
def confirm (observedAt minimumSeparation : Int) (model : OperationRecord) : Pending :=
  if model.mutationNotBeforeMs.any (observedAt < ·) then
    .confirming observedAt minimumSeparation false
  else match model.exactAbsenceObservedAtMs with
    | some first => .confirming observedAt minimumSeparation
        (minimumSeparation ≤ satAddInt 64 observedAt (-first))
    | none => .observing observedAt

/-- One statement, if its caller is at it.  A call that fails has no further statement. -/
def step (s : Database) : Statement → Option Database
  | .setOpen now uploadId =>
    some (s.updateMany (·.state = .intent)
      ({ · with state := .open, uploadId, updatedAtMs := now }))
  | .setExpected now expected =>
    some (s.updateMany (fun row => row.state = .intent ∨ row.state = .open)
      ({ · with expected, updatedAtMs := now }))
  | .transition now expected next committed =>
    if expected.canTransitionTo next = false ∨ (next == .committed) ≠ committed.isSome then none
    else some (s.updateMany (·.state = expected) fun row => { row with
      state := next
      updatedAtMs := now
      leaseOwner := none
      leaseExpiresAtMs := none
      committed := committed <|> row.committed })
  | .launchFind caller notBefore =>
    if s.row.state.isTerminal then none else some (s.setCall caller (.launching notBefore s.row))
  | .launchUpdate caller now => match s.calls caller with
      | .launching notBefore model => some { s.setCall caller .idle with
          row := { s.row with
            mutationNotBeforeMs := some (max (model.mutationNotBeforeMs.getD (-(2 ^ 63))) notBefore)
            exactAbsenceObservedAtMs := none
            updatedAtMs := now }
          observations := [] }
      | _ => none
  | .absenceFind caller observedAt minimumSeparation =>
    some { s.setCall caller (confirm observedAt minimumSeparation s.row) with
      observations := observedAt :: s.observations }
  | .absenceUpdate caller now => match s.calls caller with
      | .observing observedAt => some { s.setCall caller (.confirming observedAt 0 false) with
          row := { s.row with exactAbsenceObservedAtMs := some observedAt, updatedAtMs := now } }
      | _ => none
  | .claimSelect caller now owner staleBefore leaseUntil =>
    if Journal.claimable now staleBefore s.row then
      some (s.setCall caller (.claiming owner leaseUntil s.row))
    else none
  | .claimUpdate caller now => match s.calls caller with
      | .claiming owner leaseUntil candidate =>
        let lease := fun row : OperationRecord =>
          { row with leaseOwner := some owner, leaseExpiresAtMs := some leaseUntil }
        -- `rows_affected`
        let call := if unleased now s.row then .claimed (lease candidate) else .idle
        some ((s.updateMany (unleased now) lease).setCall caller call)
      | _ => none
  | .return caller => some (s.setCall caller .idle)

/-- The statements in order. -/
def run (s : Database) : List Statement → Option Database
  | [] => some s
  | statement :: rest => (s.step statement).bind (run · rest)

end Database

open Database

/-- The steps of the database. -/
def Step (s : Database) (statement : Statement) (s' : Database) : Prop := s.step statement = some s'

/-- A row without an observation, and no call. -/
structure Init (s : Database) : Prop where
  unobserved : s.row.exactAbsenceObservedAtMs = none
  idle : ∀ caller, s.calls caller = .idle

theorem reach_run (statements : List Statement) (r : Reach Init Step s)
    (h : s.run statements = some s') : Reach Init Step s' := by
  induction statements generalizing s with
  | nil =>
    cases h
    exact r
  | cons statement statements ih =>
    obtain ⟨s₁, hstep, h⟩ := Option.bind_eq_some_iff.mp h
    exact ih (.step r hstep) h

/-- What is true of every call but that of the caller stays true. -/
theorem forall_setCall {P : Pending → Prop} (h : ∀ caller, P (s.calls caller))
    (hcall : P call) : ∀ caller', P ((s.setCall caller call).calls caller') := by
  intro caller'
  simp only [setCall, Function.update_apply]
  split
  · exact hcall
  · exact h caller'

/-! ### Absence -/

/-- The time is not before the mutations of the operation may take effect. -/
def Late (row : OperationRecord) (t : Int) : Prop :=
  ∀ notBefore, row.mutationNotBeforeMs = some notBefore → notBefore ≤ t

/-- Two observations, apart and late enough. -/
structure Separated (row : OperationRecord) (observations : List Int) (t separation first : Int) :
    Prop where
  observed : [t, first].Sublist observations
  apart : -(2 ^ 63) < separation → separation ≤ t - first
  late : Late row t
  late_first : Late row first

/-- What a call has observed it has observed late enough. -/
def CallObserved (row : OperationRecord) (observations : List Int) : Pending → Prop
  | .observing t => t ∈ observations ∧ Late row t
  | .confirming t separation confirmed =>
    confirmed = true → ∃ first, Separated row observations t separation first
  | _ => True

structure Observed (s : Database) : Prop where
  stored : ∀ t, s.row.exactAbsenceObservedAtMs = some t → t ∈ s.observations ∧ Late s.row t
  calls : ∀ caller, CallObserved s.row s.observations (s.calls caller)

theorem CallObserved.mono {row row' : OperationRecord} {observations observations' : List Int}
    (h : CallObserved row observations call) (hlate : ∀ t, Late row t → Late row' t)
    (hobs : observations.Sublist observations') : CallObserved row' observations' call := by
  cases call with
  | observing t => exact ⟨hobs.subset h.1, hlate t h.2⟩
  | confirming t =>
    intro hc
    obtain ⟨first, hs⟩ := h hc
    exact ⟨first, hs.observed.trans hobs, hs.apart, hlate t hs.late, hlate first hs.late_first⟩
  | _ => trivial

theorem Observed.setCall (h : Observed s)
    (hcall : CallObserved s.row s.observations call) : Observed (s.setCall caller call) :=
  ⟨h.stored, forall_setCall h.calls hcall⟩

theorem Observed.updateMany (h : Observed s)
    (hset : (set s.row).exactAbsenceObservedAtMs = s.row.exactAbsenceObservedAtMs ∧
      (set s.row).mutationNotBeforeMs = s.row.mutationNotBeforeMs) :
    Observed (s.updateMany filter set) := by
  rw [Database.updateMany]
  split
  · have hlate : ∀ t, Late s.row t → Late (set s.row) t := by
      intro t ht notBefore hb
      exact ht notBefore (hset.2 ▸ hb)
    refine ⟨fun t ht => ?_, fun caller => (h.calls caller).mono hlate (.refl _)⟩
    obtain ⟨hmem, hl⟩ := h.stored t (hset.1 ▸ ht)
    exact ⟨hmem, hlate t hl⟩
  · exact h

/-- **A confirmation that has read the row** confirms behind an earlier observation. -/
theorem Observed.confirm (h : Observed s) (t separation : Int) :
    CallObserved s.row (t :: s.observations) (Database.confirm t separation s.row) := by
  rw [Database.confirm]
  split
  · rintro ⟨⟩
  next hbound =>
  have hlate : Late s.row t := by
    intro b hb
    simpa [hb] using hbound
  split
  · next first hfirst =>
    obtain ⟨hmem, hl⟩ := h.stored first hfirst
    intro hc
    refine ⟨first, (List.singleton_sublist.mpr hmem).cons_cons t, fun hsep => ?_, hlate, hl⟩
    have hc := of_decide_eq_true hc
    rw [satAddInt] at hc
    omega
  · exact ⟨List.mem_cons_self, hlate⟩

/-- The call confirms an absence. -/
def Pending.Confirms : Pending → Prop
  | .observing _ | .confirming _ _ _ => True
  | _ => False

/-- No launch is recorded while an absence is being confirmed. -/
def QuietLaunches (s : Database) : Statement → Prop
  | .launchUpdate _ _ => ∀ caller, ¬ (s.calls caller).Confirms
  | _ => True

/-- **What is stored as observed was observed since the last launch**: one statement. -/
theorem Observed.step (h : Observed s) (hstep : Step s statement s')
    (hquiet : QuietLaunches s statement) : Observed s' := by
  rw [Step] at hstep
  cases statement with
  | setOpen | setExpected =>
    cases hstep
    exact h.updateMany ⟨rfl, rfl⟩
  | transition =>
    obtain ⟨-, ⟨⟩⟩ := Option.ite_none_left_eq_some.mp hstep
    exact h.updateMany ⟨rfl, rfl⟩
  | launchFind =>
    obtain ⟨-, ⟨⟩⟩ := Option.ite_none_left_eq_some.mp hstep
    exact h.setCall trivial
  | claimSelect =>
    obtain ⟨-, ⟨⟩⟩ := Option.ite_none_right_eq_some.mp hstep
    exact h.setCall trivial
  | launchUpdate caller =>
    simp only [step] at hstep
    split at hstep
    · cases hstep
      refine ⟨by rintro t ⟨⟩, forall_setCall (fun caller => ?_) trivial⟩
      have hother := hquiet caller
      generalize s.calls caller = call at hother
      cases call with
      | observing | confirming => exact absurd trivial hother
      | _ => trivial
    · cases hstep
  | absenceFind caller t separation =>
    cases hstep
    refine ⟨fun u hu => ?_, forall_setCall (fun caller => ?_) (h.confirm t separation)⟩
    · exact ⟨List.mem_cons_of_mem _ (h.stored u hu).1, (h.stored u hu).2⟩
    · exact (h.calls caller).mono (fun _ hl => hl) (List.sublist_cons_self ..)
  | absenceUpdate caller =>
    simp only [step] at hstep
    split at hstep
    · next t hcall =>
      cases hstep
      have hpending := h.calls caller
      rw [hcall] at hpending
      refine ⟨by rintro _ ⟨⟩; exact hpending, forall_setCall (fun caller => ?_) (by rintro ⟨⟩)⟩
      exact (h.calls caller).mono (fun _ hl => hl) (.refl _)
    · cases hstep
  | claimUpdate =>
    simp only [step] at hstep
    split at hstep
    · cases hstep
      refine (h.updateMany ⟨rfl, rfl⟩).setCall ?_
      split <;> trivial
    · cases hstep
  | «return» caller =>
    cases hstep
    exact h.setCall trivial

/-- **A confirmation of absence is founded.**  In every run in which no launch is recorded while an
absence is being confirmed, a confirmation that is about to be returned rests on two observations
since the last launch was recorded, as far apart as asked for, and neither before the time of the
mutations. -/
theorem confirmed_of_quiet (r : Reach Init (Guarded Step QuietLaunches) s) {t separation : Int}
    (hcall : s.calls caller = .confirming t separation true) :
    ∃ first, Separated s.row s.observations t separation first := by
  have h : Observed s := by
    refine r.invariant (fun s hi => ⟨fun t ht => ?_, fun caller => ?_⟩)
      fun _ _ _ _ h hs => h.step hs.1 hs.2
    · cases hi.unobserved.symm.trans ht
    · rw [hi.idle]
      trivial
  have hcalls := h.calls caller
  rw [hcall] at hcalls
  exact hcalls rfl

/-- An operation that has just been recorded. -/
def recorded : Database :=
  ⟨.intent ⟨1⟩ 0 ⟨"s3", "bucket", "key", "key"⟩ ⟨none, none, []⟩, fun _ => .idle, []⟩

theorem recorded_init : Init recorded := ⟨rfl, fun _ => rfl⟩

theorem two_observations_confirm :
    ∃ s : Database, s.calls 0 = .confirming 20 5 true ∧ ∃ first,
      Separated s.row s.observations 20 5 first := by
  have r : ∃ s, Reach Init (Guarded Step QuietLaunches) s ∧ s.calls 0 = .confirming 20 5 true :=
    ⟨_, .step (e := .absenceFind 0 20 5) (.step (e := .absenceUpdate 0 10)
      (.step (e := .absenceFind 0 10 5) (.init recorded_init) ⟨rfl, trivial⟩) ⟨rfl, trivial⟩)
      ⟨rfl, trivial⟩, rfl⟩
  obtain ⟨s, r, hcall⟩ := r
  exact ⟨s, hcall, confirmed_of_quiet r hcall⟩

/-- An observation is written behind a launch that came after it; one more confirms the absence. -/
theorem launch_overwritten_by_observation :
    ∃ s, Reach Init Step s ∧ s.calls 2 = .confirming 20 5 true ∧
      ¬ ∃ first, Separated s.row s.observations 20 5 first := by
  refine ⟨_, reach_run [.absenceFind 0 10 5, .launchFind 1 0, .launchUpdate 1 10,
    .absenceUpdate 0 10, .absenceFind 2 20 5] (.init recorded_init) rfl, rfl, ?_⟩
  rintro ⟨first, h⟩
  have hlen : 2 ≤ 1 := h.observed.length_le
  omega

/-! ### Claims -/

/-- The candidate of a claim is unsettled, and in the state that is stored. -/
def CallCurrent (state : OperationState) : Pending → Prop
  | .claiming _ _ candidate => candidate.state = state ∧ state.isTerminal = false
  | _ => True

def Current (s : Database) : Prop := ∀ caller, CallCurrent s.row.state (s.calls caller)

/-- The call has selected the row and has not claimed it. -/
def Pending.Claims : Pending → Prop
  | .claiming _ _ _ => True
  | _ => False

/-- The state of the row is not written between a selection and its claim. -/
def QuietClaims (s : Database) : Statement → Prop
  | .setOpen _ _ | .transition _ _ _ _ => ∀ caller, ¬ (s.calls caller).Claims
  | _ => True

/-- A write while nothing is being claimed. -/
theorem Current.of_quiet
    (hquiet : ∀ caller, ¬ (s.calls caller).Claims) : Current (s.updateMany filter set) := by
  intro caller
  have hcalls : (s.updateMany filter set).calls = s.calls := by
    rw [updateMany]
    split <;> rfl
  have hcaller := hquiet caller
  rw [hcalls]
  generalize s.calls caller = call at hcaller
  cases call with
  | claiming => exact absurd trivial hcaller
  | _ => trivial

theorem Current.updateMany (h : Current s) (hset : (set s.row).state = s.row.state) :
    Current (s.updateMany filter set) := by
  rw [Database.updateMany]
  split
  · intro caller
    exact hset ▸ h caller
  · exact h

/-- **A selected row keeps its state**: one statement. -/
theorem Current.step (h : Current s) (hstep : Step s statement s')
    (hquiet : QuietClaims s statement) : Current s' := by
  rw [Step] at hstep
  cases statement with
  | setOpen =>
    cases hstep
    exact .of_quiet hquiet
  | setExpected =>
    cases hstep
    exact h.updateMany rfl
  | transition =>
    obtain ⟨-, ⟨⟩⟩ := Option.ite_none_left_eq_some.mp hstep
    exact .of_quiet hquiet
  | launchFind =>
    obtain ⟨-, ⟨⟩⟩ := Option.ite_none_left_eq_some.mp hstep
    exact forall_setCall h trivial
  | launchUpdate | absenceUpdate =>
    simp only [step] at hstep
    split at hstep
    · cases hstep
      exact forall_setCall h trivial
    · cases hstep
  | absenceFind =>
    cases hstep
    refine forall_setCall h ?_
    rw [confirm]
    split
    · trivial
    · split <;> trivial
  | claimSelect =>
    obtain ⟨hclaimable, ⟨⟩⟩ := Option.ite_none_right_eq_some.mp hstep
    simp only [Journal.claimable, Bool.and_eq_true, Bool.not_eq_true'] at hclaimable
    exact forall_setCall h ⟨rfl, hclaimable.1.1⟩
  | claimUpdate =>
    simp only [step] at hstep
    split at hstep
    · cases hstep
      refine forall_setCall (h.updateMany rfl) ?_
      split <;> trivial
    · cases hstep
  | «return» caller =>
    cases hstep
    exact forall_setCall h trivial

/-- **A claim is current.**  In every run in which the state of the row is not written between a
selection and its claim, the row that a claim leases is not settled, and the operation that it
returns is in the state that is stored. -/
theorem claim_current_of_quiet (r : Reach Init (Guarded Step QuietClaims) s) {now : Int}
    (hstep : Step s (.claimUpdate caller now) s') :
    s.row.state.isTerminal = false ∧
      ∀ operation, s'.calls caller = .claimed operation → operation.state = s.row.state := by
  have h : Current s := by
    refine r.invariant (fun s hi caller => ?_) fun _ _ _ _ h hs => h.step hs.1 hs.2
    rw [hi.idle]
    trivial
  have hcaller := h caller
  rw [Step] at hstep
  simp only [step] at hstep
  split at hstep
  next owner leaseUntil candidate hcall =>
    cases hstep
    rw [hcall] at hcaller
    refine ⟨hcaller.2, fun operation hop => ?_⟩
    simp only [setCall, Function.update_self] at hop
    split at hop
    · cases hop
      exact hcaller.1
    · cases hop
  · cases hstep

theorem untouched_operation_claimed :
    ∃ s s', Step s (.claimUpdate 0 10) s' ∧ s.row.state.isTerminal = false ∧
      ∀ operation, s'.calls 0 = .claimed operation → operation.state = s.row.state := by
  have r : ∃ s s', Reach Init (Guarded Step QuietClaims) s ∧ Step s (.claimUpdate 0 10) s' :=
    ⟨_, _, .step (e := .claimSelect 0 10 "worker" 5 20) (.init recorded_init) ⟨rfl, trivial⟩, rfl⟩
  obtain ⟨s, s', r, hstep⟩ := r
  exact ⟨s, s', hstep, claim_current_of_quiet r hstep⟩

/-- The operation is settled between the selection and the claim. -/
theorem settled_operation_claimed :
    ∃ s s' operation, Reach Init Step s ∧ Step s (.claimUpdate 0 10) s' ∧
      s.row.state = .provenAborted ∧ s'.row.leaseOwner = some "worker" ∧
      s'.calls 0 = .claimed operation ∧ operation.state = .aborting :=
  ⟨_, _, _, reach_run [.transition 1 .intent .aborting none,
    .claimSelect 0 10 "worker" 5 20, .transition 9 .aborting .provenAborted none]
    (.init recorded_init) rfl, rfl, rfl, rfl, rfl, rfl⟩

end S4.Transaction.Postgres
