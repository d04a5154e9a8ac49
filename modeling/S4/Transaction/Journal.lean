import S4.Lib.KeyMap
import S4.Lib.Word
import S4.Transaction.Types

/-!
# Transaction — Journal

`InMemoryOperationJournal`, one pure function per call: the result, and the journal that the call
leaves.  `now` is the clock that the call reads.  The switches with which tests make a call fail are
left out; that any call may fail is said where the journal is used.

Every call but `insertIntent`, `recordPart` and `appendEvidence` works on one record, through
`Journal.update`.  Such a record only ever `Evolves`: its identity stays, its state moves along the
state machine, and its mutation bound grows.
-/

namespace S4.Transaction

open Lib
open Managed (Uuid)

structure Journal where
  operations : KeyMap Uuid OperationRecord
  parts : KeyMap (Uuid × Nat) PartRecord
  evidence : List EvidenceRecord

namespace Journal

variable (j : Journal)

/-- A call on one record, which it may change in place. -/
def update {α : Type} (j : Journal) (id : Uuid)
    (f : OperationRecord → Except JournalError (α × OperationRecord)) :
    Except JournalError α × Journal :=
  match j.operations.get? id with
  | none => (.error (.notFound id), j)
  | some operation => match f operation with
    | .error e => (.error e, j)
    | .ok (a, operation) => (.ok a, { j with operations := j.operations.insert id operation })

def insertIntent (operation : OperationRecord) : Except JournalError Unit × Journal :=
  if operation.state ≠ .intent then (.error (.conflict "new operation must start in INTENT"), j)
  else
    let j' := { j with operations := j.operations.insert operation.id operation }
    if j.operations.contains operation.id then (.error (.conflict "duplicate operation id"), j')
    else (.ok (), j')

def openRecord (now : Int) (uploadId : Option String) (operation : OperationRecord) :
    Except JournalError (Unit × OperationRecord) :=
  if operation.state ≠ .intent then
    .error (.conflict ("expected INTENT, found " ++ operation.state.asStr))
  else .ok ((), { operation with state := .open, uploadId := uploadId, updatedAtMs := now })

def setOpen (now : Int) (id : Uuid) (uploadId : Option String) :
    Except JournalError Unit × Journal :=
  j.update id (openRecord now uploadId)

def expectRecord (now : Int) (expected : ExpectedObject) (operation : OperationRecord) :
    Except JournalError (Unit × OperationRecord) :=
  if operation.state ≠ .intent ∧ operation.state ≠ .open then
    .error (.conflict ("operation " ++ operation.id.toString ++
      " cannot update expected output in " ++ operation.state.asStr))
  else .ok ((), { operation with expected := expected, updatedAtMs := now })

def setExpected (now : Int) (id : Uuid) (expected : ExpectedObject) :
    Except JournalError Unit × Journal :=
  j.update id (expectRecord now expected)

def moveRecord (now : Int) (expected next : OperationState) (committed : Option StoredObjectMeta)
    (operation : OperationRecord) : Except JournalError (Unit × OperationRecord) :=
  if operation.state ≠ expected then
    .error (.conflict ("expected " ++ expected.asStr ++ ", found " ++ operation.state.asStr))
  else .ok ((), { operation with
    state := next
    committed := committed
    updatedAtMs := now
    leaseOwner := none
    leaseExpiresAtMs := none })

/-- A legal transition; metadata comes with `COMMITTED` and only then. -/
def transition (now : Int) (id : Uuid) (expected next : OperationState)
    (committed : Option StoredObjectMeta) : Except JournalError Unit × Journal :=
  if expected.canTransitionTo next = false then
    (.error (.conflict ("illegal transition " ++ expected.asStr ++ " -> " ++ next.asStr)), j)
  else if (next == .committed) ≠ committed.isSome then
    (.error (.conflict "COMMITTED transitions require object metadata only"), j)
  else j.update id (moveRecord now expected next committed)

/-- A part is recorded once; a retry must agree with it. -/
def recordPart (part : PartRecord) : Except JournalError Unit × Journal :=
  match j.parts.get? (part.operationId, part.partNumber) with
  | some existing =>
    if existing.etag = part.etag ∧ existing.sizeBytes = part.sizeBytes ∧
        existing.digest = part.digest then (.ok (), j)
    else (.error (.conflict ("part " ++ toString part.partNumber ++
      " retry body or result changed")), j)
  | none => (.ok (), { j with parts := j.parts.insert (part.operationId, part.partNumber) part })

def appendEvidence (record : EvidenceRecord) : Except JournalError Unit × Journal :=
  match j.evidence.find? (·.id == record.id) with
  | some existing =>
    if existing.operationId = record.operationId ∧ existing.kind = record.kind ∧
        existing.detail = record.detail then (.ok (), j)
    else (.error (.conflict "evidence id conflicts with an existing record"), j)
  | none => (.ok (), { j with evidence := j.evidence ++ [record] })

def launchRecord (now notBefore : Int) (operation : OperationRecord) :
    Except JournalError (Unit × OperationRecord) :=
  if operation.state.isTerminal then
    .error (.conflict "terminal operation cannot launch a provider mutation")
  else .ok ((), { operation with
    mutationNotBeforeMs := some (max (operation.mutationNotBeforeMs.getD (-(2 ^ 63))) notBefore)
    exactAbsenceObservedAtMs := none
    updatedAtMs := now })

def recordMutationLaunch (now : Int) (id : Uuid) (notBefore : Int) :
    Except JournalError Unit × Journal :=
  j.update id (launchRecord now notBefore)

/-- An absence is confirmed when it is observed twice, far enough apart. -/
def absenceRecord (now observedAt minimumSeparation : Int) (operation : OperationRecord) :
    Except JournalError (Bool × OperationRecord) :=
  if operation.mutationNotBeforeMs.any (observedAt < ·) then .ok (false, operation)
  else match operation.exactAbsenceObservedAtMs with
    | some first => .ok (minimumSeparation ≤ satAddInt 64 observedAt (-first), operation)
    | none => .ok (false, { operation with
        exactAbsenceObservedAtMs := some observedAt
        updatedAtMs := now })

def confirmExactAbsence (now : Int) (id : Uuid)
    (observedAt minimumSeparation : Int) : Except JournalError Bool × Journal :=
  j.update id (absenceRecord now observedAt minimumSeparation)

/-- A stale operation without a live lease is leased. -/
def claimRecord (now : Int) (owner : String) (staleBefore leaseUntil : Int)
    (operation : OperationRecord) :
    Except JournalError (Option OperationRecord × OperationRecord) :=
  if operation.state.isTerminal ∨ staleBefore < operation.updatedAtMs ∨
      operation.leaseExpiresAtMs.any (now ≤ ·) then .ok (none, operation)
  else
    let claimed := { operation with
      leaseOwner := some owner
      leaseExpiresAtMs := some leaseUntil }
    .ok (some claimed, claimed)

def claimReconcilableOperation (now : Int) (id : Uuid) (owner : String)
    (staleBefore leaseUntil : Int) : Except JournalError (Option OperationRecord) × Journal :=
  if j.operations.contains id then j.update id (claimRecord now owner staleBefore leaseUntil)
  else (.ok none, j)

/-- May the operation be claimed? -/
def claimable (now staleBefore : Int) (operation : OperationRecord) : Bool :=
  !operation.state.isTerminal && operation.updatedAtMs ≤ staleBefore &&
    operation.leaseExpiresAtMs.all (· < now)

/-- The claimable operations, the longest untouched first. -/
def claimableIds (now staleBefore : Int) : List (Int × Uuid) :=
  ((j.operations.values.filter (claimable now staleBefore)).map fun operation =>
    (operation.updatedAtMs, operation.id)).insertionSort
      fun a b => a.1 < b.1 ∨ a.1 = b.1 ∧ a.2.val ≤ b.2.val

/-- The ids are claimed one after another; an id that is gone is passed over. -/
def claimAll (owner : String) (leaseUntil : Int) (operations : KeyMap Uuid OperationRecord) :
    List Uuid → List OperationRecord × KeyMap Uuid OperationRecord
  | [] => ([], operations)
  | id :: rest =>
    match operations.get? id with
    | none => claimAll owner leaseUntil operations rest
    | some operation =>
      let claimed := { operation with
        leaseOwner := some owner
        leaseExpiresAtMs := some leaseUntil }
      let others := claimAll owner leaseUntil (operations.insert id claimed) rest
      (claimed :: others.1, others.2)

def claimReconcilable (now : Int) (owner : String) (staleBefore leaseUntil : Int)
    (limit : Nat) : Except JournalError (List OperationRecord) × Journal :=
  let claimed := claimAll owner leaseUntil j.operations
    (((j.claimableIds now staleBefore).take limit).map Prod.snd)
  (.ok claimed.1, { j with operations := claimed.2 })

end Journal

/-! ### What a call does to a record -/

/-- A record after a call: the same operation, further along its state machine. -/
structure OperationRecord.Evolves (operation operation' : OperationRecord) : Prop where
  id : operation'.id = operation.id
  state : operation'.state = operation.state ∨
    operation.state.canTransitionTo operation'.state = true
  notBefore : ∀ t, operation.mutationNotBeforeMs = some t →
    ∃ t', operation'.mutationNotBeforeMs = some t' ∧ t ≤ t'

namespace Journal

variable {j : Journal} {id : Uuid}

/-- A call on one record fails, or has changed just that record. -/
theorem update_cases {α : Type} (j : Journal) (id : Uuid)
    (f : OperationRecord → Except JournalError (α × OperationRecord)) :
    ((∃ e, (j.update id f).1 = .error e) ∧ (j.update id f).2 = j) ∨
    ∃ operation a operation', j.operations.get? id = some operation ∧
      f operation = .ok (a, operation') ∧ (j.update id f).1 = .ok a ∧
      (j.update id f).2.operations = j.operations.insert id operation' := by
  unfold update
  split
  · exact .inl ⟨⟨_, rfl⟩, rfl⟩
  · next operation ho =>
    split
    · exact .inl ⟨⟨_, rfl⟩, rfl⟩
    · next a operation' hf => exact .inr ⟨operation, a, operation', ho, hf, rfl, rfl⟩

end Journal

end S4.Transaction
