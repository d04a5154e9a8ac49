import S4.Lib.Agents
import S4.Transaction.Journal

/-!
# Transaction — World

What the writers and the reconcilers of destination transactions share: the journal, the clock and
the provider.  Their effects are the calls on these three (`Effect`), and `Effect.Performs` says
what a call may do and answer.

Any journal or provider call may fail, with or without its effect.  A `put_object` or
`complete_multipart` is launched and awaited in two steps: in between, and after an ambiguous
answer, the provider may still apply it, until the bound that was recorded for it (`World.Drifts`).
An answer of success means that it was applied, a definitive error that it never will be.

Two fields are a history, which no program reads: the time at which an agent last read that an
operation is exactly absent, and the `abort_multipart` calls that were sent.
-/

namespace S4.Transaction

open Lib
open Managed (Uuid)

/-- The writer of an operation, or one of the reconcilers. -/
inductive Agent where
  | writer (id : Uuid)
  | reconciler (n : Nat)
deriving DecidableEq

/-! ### Effects -/

structure ListedUpload where
  key : Option String
  uploadId : Option String
  initiatedAtMs : Option Int
deriving DecidableEq

/-- A page of `list_multipart_uploads`. -/
structure UploadPage where
  uploads : List ListedUpload
  isTruncated : Bool
  nextKeyMarker : Option String
  nextUploadIdMarker : Option String
deriving DecidableEq

inductive Effect where
  -- the journal
  | insertIntent (operation : OperationRecord)
  | get (id : Uuid)
  | setOpen (id : Uuid) (uploadId : Option String)
  | setExpected (id : Uuid) (expected : ExpectedObject)
  | transition (id : Uuid) (expected next : OperationState) (committed : Option StoredObjectMeta)
  | recordPart (part : PartRecord)
  | appendEvidence (id : Uuid) (kind : String) (detail : List (String × String))
  | recordMutationLaunch (id : Uuid) (notBefore : Int)
  | confirmExactAbsence (id : Uuid) (observedAt minimumSeparation : Int)
  | claimReconcilableOperation (id : Uuid) (owner : String) (staleBefore leaseUntil : Int)
  -- the clock
  | clock
  -- the provider
  | createMultipart (operation : OperationRecord)
  | uploadPart (operation : OperationRecord) (uploadId : String) (partNumber : Nat) (body : Bytes)
  | launchPut (operation : OperationRecord) (body : Bytes) (notBefore : Int)
  | launchComplete (operation : OperationRecord) (uploadId : String) (parts : List UploadedPart)
      (notBefore : Int)
  | awaitMutation (handle : Nat)
  | abortMultipart (operation : OperationRecord) (uploadId : String)
  | listMultipartUploads (bucket keyPrefix : String) (keyMarker uploadIdMarker : Option String)
  | probeCompletion (operation : OperationRecord)
  | deleteObjectVersion (operation : OperationRecord) (versionId : String)
  -- a listing that goes on past the pages that are followed
  | hang

@[reducible] def Answer : Effect → Type
  | .insertIntent _                       => Except JournalError Unit
  | .get _                                => Except JournalError (Option OperationRecord)
  | .setOpen _ _                          => Except JournalError Unit
  | .setExpected _ _                      => Except JournalError Unit
  | .transition _ _ _ _                   => Except JournalError Unit
  | .recordPart _                         => Except JournalError Unit
  | .appendEvidence _ _ _                 => Except JournalError Unit
  | .recordMutationLaunch _ _             => Except JournalError Unit
  | .confirmExactAbsence _ _ _            => Except JournalError Bool
  | .claimReconcilableOperation _ _ _ _   => Except JournalError (Option OperationRecord)
  | .clock                                => Int
  | .createMultipart _                    => Except BackendError String
  | .uploadPart _ _ _ _                   => Except BackendError String
  | .launchPut _ _ _                      => Nat
  | .launchComplete _ _ _ _               => Nat
  | .awaitMutation _                      => Except BackendError StoredObjectMeta
  | .abortMultipart _ _                   => Except BackendError Unit
  | .listMultipartUploads _ _ _ _         => Except BackendError UploadPage
  | .probeCompletion _                    => Except BackendError CompletionProbe
  | .deleteObjectVersion _ _              => Except BackendError Unit
  | .hang                                 => Empty

/-! ### The provider -/

/-- A part that the provider has received. -/
structure StoredPart where
  partNumber : Nat
  etag : String
  body : Bytes
deriving DecidableEq

/-- A multipart upload, with the operation that created it. -/
structure Upload where
  uploadId : String
  creator : Uuid
  bucket : String
  key : String
  initiatedAtMs : Option Int
  parts : List StoredPart
  aborted : Bool
deriving DecidableEq

/-- A `put_object` or `complete_multipart` that was launched, with the body it would commit. -/
structure Mutation where
  operation : Uuid
  body : Bytes
  notBefore : Int
  rejected : Bool
  appliedAt : Option Int
deriving DecidableEq

structure World where
  journal : Journal
  clock : Int
  uploads : List Upload
  mutations : List Mutation
  absences : Agent → Uuid → Option Int
  aborts : List (OperationRecord × String)

/-- The body of a part that a completion names by number and entity tag. -/
def Upload.partBody (u : Upload) (part : UploadedPart) : Option Bytes :=
  (u.parts.find? fun p => p.partNumber == part.partNumber && p.etag == part.etag).map (·.body)

namespace World

/-- The body that a completion of the upload commits: the named parts, which must be in part order.
-/
def assemble (w : World) (uploadId : String) (parts : List UploadedPart) : Option Bytes :=
  (w.uploads.find? (·.uploadId == uploadId)).bind fun u =>
    if u.aborted ∨ ¬ parts.Pairwise (·.partNumber < ·.partNumber) then none
    else (parts.mapM u.partBody).map List.flatten

def addPart (w : World) (uploadId : String) (part : StoredPart) : World :=
  { w with uploads := w.uploads.map fun u =>
      if u.uploadId = uploadId then { u with parts := part :: u.parts } else u }

def dropUpload (w : World) (uploadId : String) : World :=
  { w with uploads := w.uploads.map fun u =>
      if u.uploadId = uploadId then { u with aborted := true } else u }

def launch (w : World) (m : Mutation) : World := { w with mutations := w.mutations ++ [m] }

def reject (w : World) (n : Nat) : World :=
  { w with mutations := w.mutations.modify n ({ · with rejected := true }) }

def apply (w : World) (n : Nat) : World :=
  { w with mutations := w.mutations.modify n ({ · with appliedAt := some w.clock }) }

/-- A mutation of the operation has taken effect. -/
def Applied (w : World) (id : Uuid) : Prop :=
  ∃ m ∈ w.mutations, m.operation = id ∧ m.appliedAt.isSome = true

/-- A journal call, which may fail with or without its effect. -/
def Journals {α : Type} (w : World) (call : Except JournalError α × Journal)
    (r : Except JournalError α) (w' : World) : Prop :=
  (w' = { w with journal := call.2 } ∧ (r = call.1 ∨ ∃ e, r = .error e)) ∨
  (w' = w ∧ ∃ e, r = .error e)

/-- Time passes, or a mutation is applied that may still be. -/
def Drifts (w w' : World) : Prop :=
  (∃ t, w.clock ≤ t ∧ w' = { w with clock := t }) ∨
  ∃ n m, w.mutations[n]? = some m ∧ m.rejected = false ∧ m.appliedAt = none ∧
    w.clock ≤ m.notBefore ∧ w' = w.apply n

end World

/-- What an effect of an agent may do and answer. -/
def Effect.Performs (i : Agent) : (e : Effect) → World → Answer e → World → Prop
  -- an operation is begun under a new identifier
  | .insertIntent op, w, r, w' =>
    w.Journals (w.journal.insertIntent op) r w' ∧
      (w.journal.operations.contains op.id = true → w' = w)
  | .get id, w, r, w' => w.Journals (.ok (w.journal.operations.get? id), w.journal) r w'
  | .setOpen id uploadId, w, r, w' => w.Journals (w.journal.setOpen w.clock id uploadId) r w'
  | .setExpected id expected, w, r, w' =>
    w.Journals (w.journal.setExpected w.clock id expected) r w'
  | .transition id expected next committed, w, r, w' =>
    w.Journals (w.journal.transition w.clock id expected next committed) r w'
  | .recordPart part, w, r, w' => w.Journals (w.journal.recordPart part) r w'
  | .appendEvidence id kind detail, w, r, w' =>
    ∃ evidenceId, w.Journals
      (w.journal.appendEvidence ⟨evidenceId, id, kind, detail, w.clock⟩) r w'
  | .recordMutationLaunch id notBefore, w, r, w' =>
    w.Journals (w.journal.recordMutationLaunch w.clock id notBefore) r w'
  | .confirmExactAbsence id observedAt separation, w, r, w' =>
    w.Journals (w.journal.confirmExactAbsence w.clock id observedAt separation) r w'
  | .claimReconcilableOperation id owner staleBefore leaseUntil, w, r, w' =>
    w.Journals
      (w.journal.claimReconcilableOperation w.clock id owner staleBefore leaseUntil) r w'
  | .clock, w, r, w' => r = w.clock ∧ w' = w
  -- an upload gets an identifier of its own
  | .createMultipart op, w, r, w' =>
    (∃ uploadId initiated, (∀ u ∈ w.uploads, u.uploadId ≠ uploadId) ∧
      w' = { w with uploads := ⟨uploadId, op.id, op.destination.bucket,
        op.destination.physicalKey, initiated, [], false⟩ :: w.uploads } ∧
      (r = .ok uploadId ∨ ∃ e, r = .error e)) ∨
    (w' = w ∧ ∃ e, r = .error e)
  -- the entity tag of a part names its body
  | .uploadPart _ uploadId partNumber body, w, r, w' =>
    (∃ etag, (∃ u ∈ w.uploads, u.uploadId = uploadId ∧ u.aborted = false) ∧
      (∀ u ∈ w.uploads, u.uploadId = uploadId → ∀ p ∈ u.parts, p.partNumber = partNumber →
        p.etag = etag → p.body = body) ∧
      w' = w.addPart uploadId ⟨partNumber, etag, body⟩ ∧ (r = .ok etag ∨ ∃ e, r = .error e)) ∨
    (w' = w ∧ ∃ e, r = .error e)
  | .launchPut op body notBefore, w, r, w' =>
    w' = w.launch ⟨op.id, body, notBefore, false, none⟩ ∧ r = w.mutations.length
  | .launchComplete op uploadId parts notBefore, w, r, w' =>
    w' = w.launch ⟨op.id, (w.assemble uploadId parts).getD [], notBefore,
      (w.assemble uploadId parts).isNone, none⟩ ∧ r = w.mutations.length
  | .awaitMutation n, w, r, w' =>
    (∃ stored m, r = .ok stored ∧ w.mutations[n]? = some m ∧ m.appliedAt.isSome = true ∧ w' = w) ∨
    (∃ e m, r = .error e ∧ e.kind = .definitive ∧ w.mutations[n]? = some m ∧
      m.appliedAt = none ∧ w' = w.reject n) ∨
    (∃ e, r = .error e ∧ e.kind = .ambiguous ∧ w' = w)
  | .abortMultipart op uploadId, w, _, w' =>
    w' = { w with aborts := (op, uploadId) :: w.aborts } ∨
    w' = { w.dropUpload uploadId with aborts := (op, uploadId) :: w.aborts }
  | .listMultipartUploads bucket _ _ _, w, r, w' =>
    w' = w ∧ ∀ page, r = .ok page → ∀ l ∈ page.uploads, ∀ key uploadId, l.key = some key →
      l.uploadId = some uploadId → ∃ u ∈ w.uploads, u.uploadId = uploadId ∧ u.bucket = bucket ∧
        u.key = key ∧ u.initiatedAtMs = l.initiatedAtMs
  | .probeCompletion op, w, r, w' =>
    (∃ stored, r = .ok (.committed stored) ∧ w.Applied op.id ∧ w' = w) ∨
    (r = .ok .provenAbsentExact ∧ ¬ w.Applied op.id ∧ w' = { w with
      absences := Function.update w.absences i
        (Function.update (w.absences i) op.id (some w.clock)) }) ∨
    ((r = .ok .provenAbsent ∨ r = .ok .inconclusive ∨ ∃ e, r = .error e) ∧ w' = w)
  | .deleteObjectVersion _ _, w, _, w' => w' = w
  | .hang, _, r, _ => r.elim

end S4.Transaction
