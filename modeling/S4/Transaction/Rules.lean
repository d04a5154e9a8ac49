import S4.Transaction.History
import S4.Transaction.Reconciler

/-!
# Transaction — Rules

What an effect does to the journal, and what the answer of a journal call tells a program about the
record that it was about.
-/

namespace S4.Transaction

open Lib
open Managed (Uuid)

def World.record (w : World) (id : Uuid) : Option OperationRecord := w.journal.operations.get? id

variable {σ α : Type} {D : Discipline Effect Answer World} {i : Agent} {s : σ} {w w' : World}
  {call : Except JournalError α × Journal} {id : Uuid} {a : α} {w : World}

/-! ### What an effect does to the journal -/

/-- The effects that give out no lease. -/
def Effect.LeavesLeases : Effect → Prop
  | .insertIntent _ => False
  | .claimReconcilableOperation _ _ _ _ => False
  | _ => True

/-- The calls that give out no lease. -/
def JournalCall.LeavesLeases : JournalCall → Prop
  | .insertIntent _ | .claimReconcilable .. | .claimReconcilableOperation .. => False
  | _ => True

/-- The journal is left alone, or is the one after a call of the kind, at the present time. -/
def World.CallsAt (P : JournalCall → Prop) (w w' : World) : Prop :=
  w'.clock = w.clock ∧ (w'.journal = w.journal ∨ ∃ c, P c ∧
    (∀ operation ∈ c.inserts?, w.journal.operations.get? operation.id = none) ∧
      w'.journal = c.next w.clock w.journal)

theorem World.Journals.callsAt {P : JournalCall → Prop} {r : Except JournalError α}
    (h : w.Journals call r w') (c : JournalCall) (hc : call.2 = c.next w.clock w.journal) (hP : P c)
    (hnew : ∀ operation ∈ c.inserts?, w.journal.operations.get? operation.id = none) :
    w.CallsAt P w' := by
  obtain ⟨rfl, -⟩ | ⟨rfl, -⟩ := h
  · exact ⟨rfl, .inr ⟨c, hP, hnew, hc⟩⟩
  · exact ⟨rfl, .inl rfl⟩

/-- **An effect makes one call on the journal at most**, which gives out a lease only if the effect
does. -/
theorem Effect.Performs.callsAt {i : Agent} {e : Effect} {r : Answer e}
    (h : Effect.Performs i e w r w') : w.CallsAt (fun c => e.LeavesLeases → c.LeavesLeases) w' := by
  have hold (c : JournalCall) (hc : c.inserts? = none) :
      ∀ operation ∈ c.inserts?, w.journal.operations.get? operation.id = none := by
    simp [hc]
  cases e with
  | insertIntent operation =>
    obtain ⟨hj, hdup⟩ := h
    cases hc : w.journal.operations.contains operation.id with
    | true => exact ⟨by rw [hdup hc], .inl (by rw [hdup hc])⟩
    | false =>
      refine hj.callsAt (.insertIntent operation) rfl id fun o ho => ?_
      obtain rfl : operation = o := Option.some.inj ho
      simpa [KeyMap.contains] using hc
  | get =>
    obtain ⟨rfl, -⟩ | ⟨rfl, -⟩ := h <;> exact ⟨rfl, .inl rfl⟩
  | setOpen id uploadId =>
    exact World.Journals.callsAt h (.setOpen id uploadId) rfl (fun h => h) (hold _ rfl)
  | setExpected id expected =>
    exact World.Journals.callsAt h (.setExpected id expected) rfl (fun h => h) (hold _ rfl)
  | transition id expected next committed =>
    exact World.Journals.callsAt h (.transition id expected next committed) rfl (fun h => h)
      (hold _ rfl)
  | recordPart part =>
    exact World.Journals.callsAt h (.recordPart part) rfl (fun h => h) (hold _ rfl)
  | appendEvidence id kind detail =>
    obtain ⟨evidenceId, h⟩ := h
    exact World.Journals.callsAt h (.appendEvidence ⟨evidenceId, id, kind, detail, w.clock⟩) rfl
      (fun h => h) (hold _ rfl)
  | recordMutationLaunch id notBefore =>
    exact World.Journals.callsAt h (.recordMutationLaunch id notBefore) rfl (fun h => h)
      (hold _ rfl)
  | confirmExactAbsence id observedAt separation =>
    exact World.Journals.callsAt h (.confirmExactAbsence id observedAt separation) rfl
      (fun h => h) (hold _ rfl)
  | claimReconcilableOperation id owner staleBefore leaseUntil =>
    exact World.Journals.callsAt h (.claimReconcilableOperation id owner staleBefore leaseUntil) rfl
      (fun h => h) (hold _ rfl)
  | clock =>
    obtain ⟨-, rfl⟩ := h
    exact ⟨rfl, .inl rfl⟩
  | createMultipart =>
    obtain ⟨uploadId, initiated, -, rfl, -⟩ | ⟨rfl, -⟩ := h <;> exact ⟨rfl, .inl rfl⟩
  | uploadPart =>
    obtain ⟨etag, -, -, rfl, -⟩ | ⟨rfl, -⟩ := h <;> exact ⟨rfl, .inl rfl⟩
  | launchPut | launchComplete | listMultipartUploads =>
    obtain ⟨rfl, -⟩ := h
    exact ⟨rfl, .inl rfl⟩
  | awaitMutation =>
    obtain ⟨_, _, -, -, -, rfl⟩ | ⟨_, _, -, -, -, -, rfl⟩ | ⟨_, -, -, rfl⟩ := h <;>
      exact ⟨rfl, .inl rfl⟩
  | abortMultipart =>
    obtain rfl | rfl := h <;> exact ⟨rfl, .inl rfl⟩
  | probeCompletion =>
    obtain ⟨_, -, -, rfl⟩ | ⟨-, -, rfl⟩ | ⟨-, rfl⟩ := h <;> exact ⟨rfl, .inl rfl⟩
  | deleteObjectVersion =>
    obtain rfl := h
    exact ⟨rfl, .inl rfl⟩
  | hang => exact r.elim

/-! ### What an answer tells -/

theorem safe_journal {m : TxMethod σ (Except JournalError α)}
    {R : Except TransactionError α → σ → World → Prop} :
    (journal m).Safe D R s w ↔ m.Safe D (fun r s w => match r with
      | .ok r => R (r.mapError .journal) s w
      | .error e => R (.error e) s w) s w := by
  simp only [journal, Method.safe_bind, Method.safe_ofExcept]
  refine iff_of_eq (congrArg (fun Q => m.Safe D Q s w) ?_)
  funext r s w
  cases r <;> rfl

theorem record_insert {operation : OperationRecord} {j : Journal}
    (hj : j.operations = w.journal.operations.insert id operation) (id' : Uuid) :
    ({ w with journal := j } : World).record id' = if id' =
    id then some operation else w.record id' := by
  simp only [World.record, hj, KeyMap.get?_insert]

/-- A journal call that answers `Ok` has happened. -/
theorem World.Journals.of_ok
    (h : w.Journals call (.ok a) w') : w' = { w with journal := call.2 } ∧ call.1 = .ok a := by
  obtain ⟨rfl, hr | ⟨_, hr⟩⟩ | ⟨-, _, hr⟩ := h
  · exact ⟨rfl, hr.symm⟩
  · cases hr
  · cases hr

/-- A call on one record that answers `Ok` has changed it. -/
theorem World.Journals.updated
    {f : OperationRecord → Except JournalError (α × OperationRecord)}
    (h : w.Journals (w.journal.update id f) (.ok a) w') :
    ∃ operation operation', w.record id = some operation ∧ f operation = .ok (a, operation') ∧
      w'.record id = some operation' ∧ w'.mutations = w.mutations ∧ w'.clock = w.clock := by
  obtain ⟨rfl, ha⟩ := h.of_ok
  obtain ⟨⟨e, he⟩, -⟩ | ⟨operation, a', operation', ho, hf, ha', hj⟩ := w.journal.update_cases id f
  · rw [he] at ha; cases ha
  · rw [ha'] at ha
    cases ha
    refine ⟨operation, operation', ho, hf, ?_, rfl, rfl⟩
    rw [record_insert hj, if_pos rfl]

/-- A transition that answers `Ok` was from the expected state. -/
theorem transition_ok {expected next : OperationState}
    {committed : Option StoredObjectMeta}
    (h : (Effect.transition id expected next committed).Performs i w (.ok ()) w') :
    ∃ operation operation', w.record id = some operation ∧ operation.state = expected ∧
      w'.record id = some operation' ∧ operation'.state = next ∧ w'.mutations = w.mutations := by
  have h : w.Journals (w.journal.transition w.clock id expected next committed) (.ok ()) w' := h
  unfold Journal.transition at h
  split at h
  · cases h.of_ok.2
  split at h
  · cases h.of_ok.2
  · obtain ⟨op, op', ho, hf, ho', hm, -⟩ := h.updated
    unfold Journal.moveRecord at hf
    split at hf
    · cases hf
    · next hst =>
      cases hf
      exact ⟨op, _, ho, not_not.mp hst, ho', rfl, hm⟩

end S4.Transaction
