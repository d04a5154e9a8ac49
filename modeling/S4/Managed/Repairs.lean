import S4.Managed.Types
import Mathlib.Data.List.Dedup
import Mathlib.Data.List.ReduceOption
import Mathlib.Data.List.Sort

/-!
# Managed — Repairs

The repair records that the repository derives from an authority, how a finished repair changes the
authority (`applyRepairToAuthority`), the state of the in-memory repository (`MemoryState`), and the
two ways a repair row enters it.  `insertMemoryRepair` gives a task — a kind, a generation and a
target backend — at most one row: it revives a row that is `DONE` and leaves any other row as it is.
`insertMemoryWaitingPlacementCleanup` parks a cleanup until its placement has cut over, and does
nothing where the task already has a row.

A repository call reads the clock and draws fresh identifiers.  Both come with the call, as its
`CallEnv`: `now` is the time, `uuid n` the `n`-th identifier the call draws.
-/

namespace S4.Managed

open Lib

/-- What a repository call reads from outside: the clock and its fresh identifiers. -/
structure CallEnv where
  now : Int
  uuid : Nat → Uuid

def maxRepairAttempts : Nat := 8

/-- Exponential backoff before a failed repair is eligible for retry. -/
def repairBackoffMs (attempts : Nat) : Int :=
  min (30 * 1000 * 2 ^ min attempts 10) (4 * 60 * 60 * 1000)

section Records

variable [Sha256]

/-- A repair record that copies its identity from an authority. -/
def RepairRecord.copy (now : Int) (repairId : Uuid) (kind : RepairKind)
    (authority : ObjectAuthority) (sourceBackendId : Option String) (targetBackendId : String)
    (targetRole : RepairTargetRole) (placementVersion : Nat) : RepairRecord where
  id := repairId
  repairId := repairId
  kind := kind
  logical := authority.logical
  namespaceEpoch := 0
  authorityCasVersion := authority.casVersion
  generation := authority.generation
  digest := authority.digest
  size := authority.size
  metadata := authority.metadata
  physicalKey := generationPhysicalKey authority.logical authority.generation
  sourceBackendId := sourceBackendId
  targetBackendId := targetBackendId
  targetRole := targetRole
  placementVersion := placementVersion
  placementPrimaryBackendId := none
  placementReplicaBackendId := none
  attempts := 0
  leaseOwner := none
  leaseToken := none
  leaseExpiresAtMs := none
  notBeforeMs := 0
  createdAtMs := now
  updatedAtMs := now

/-- One leg of a migration to `placement`. -/
def RepairRecord.placement (now : Int) (repairId : Uuid) (authority : ObjectAuthority)
    (sourceBackendId : Option String) (targetBackendId : String) (targetRole : RepairTargetRole)
    (placement : Placement) : RepairRecord :=
  { RepairRecord.copy now repairId .placement authority sourceBackendId targetBackendId targetRole
      placement.version with
    placementPrimaryBackendId := some placement.primaryBackendId
    placementReplicaBackendId := placement.replicaBackendId }

/-- The cleanup of one backend of an authority's generation. -/
def cleanupRepair (now : Int) (repairId : Uuid) (authority : ObjectAuthority) (backend : String) :
    RepairRecord :=
  RepairRecord.copy now repairId .deleteGeneration authority none backend .cleanup
    authority.placementVersion

/-- `n` counts the identifiers the call has already drawn. -/
def cleanupRepairs (env : CallEnv) (n : Nat) (authority : ObjectAuthority) : List RepairRecord :=
  cleanupRepair env.now (env.uuid n) authority authority.primaryBackendId ::
    match authority.replicaBackendId with
    | some replica => [cleanupRepair env.now (env.uuid (n + 1)) authority replica]
    | none => []

def publicationRepairs (env : CallEnv) (n : Nat) (authority : ObjectAuthority) :
    List RepairRecord :=
  match authority.replicaBackendId, authority.replicaStatus with
  | some replica, .repairPending =>
    [RepairRecord.copy env.now (env.uuid n) .replica authority (some authority.primaryBackendId)
      replica .replica authority.placementVersion]
  | _, _ => []

/-- The backends that `previous` named and `authority` no longer does. -/
def staleLocations (previous authority : ObjectAuthority) : List String :=
  (([some previous.primaryBackendId, previous.replicaBackendId].reduceOption.filter fun backend =>
    backend != authority.primaryBackendId && authority.replicaBackendId != some backend)).dedup

def placementCleanupRepairs (env : CallEnv) (previous authority : ObjectAuthority) :
    List RepairRecord :=
  (staleLocations previous authority).zipIdx.map fun backend =>
    cleanupRepair env.now (env.uuid backend.2) authority backend.1

end Records

/-- Do the authority's copies match a requested placement, both ready? -/
def ObjectAuthority.locationsMatch (authority : ObjectAuthority) (primary : String)
    (replica : Option String) : Bool :=
  authority.primaryBackendId == primary && authority.primaryStatus == .ready &&
    match replica with
    | some replica =>
      authority.replicaBackendId == some replica && authority.replicaStatus == .ready
    | none => authority.replicaBackendId.isNone && authority.replicaStatus == .absent

/-- The authority after a placement leg, before its version is moved: `none` where the leg's target
is not the one its requested placement names. -/
def ObjectAuthority.applyLeg (authority : ObjectAuthority) (repair : RepairRecord)
    (primary : String) : Option ObjectAuthority :=
  match repair.targetRole with
  | .primary =>
    if repair.targetBackendId = primary then
      some (if repair.placementReplicaBackendId.isNone then
          { authority with
            primaryBackendId := primary, primaryStatus := .ready
            replicaBackendId := none, replicaStatus := .absent }
        else { authority with primaryBackendId := primary, primaryStatus := .ready })
    else none
  | .replica =>
    if repair.placementReplicaBackendId = some repair.targetBackendId then
      some { authority with
        replicaBackendId := some repair.targetBackendId, replicaStatus := .ready }
    else none
  | .cleanup => none

/-- What a finished repair does to the authority: an error, or whether it was applied and the
authority afterwards. -/
def applyRepairToAuthority (authority : ObjectAuthority) (repair : RepairRecord) :
    Except ManagedError (Bool × ObjectAuthority) :=
  if repair.kind = .placement then
    match repair.placementPrimaryBackendId with
    | none => .error (.corrupt "placement repair has no requested primary backend")
    | some primary =>
      if repair.placementVersion < authority.placementVersion then .ok (false, authority)
      else match authority.applyLeg repair primary with
        | none => .error (.corrupt "placement repair target does not match requested placement")
        | some moved =>
          if moved.locationsMatch primary repair.placementReplicaBackendId then
            .ok (true, { moved with placementVersion := repair.placementVersion })
          else .ok (true, moved)
  else match repair.targetRole with
    | .primary =>
      .ok (true, { authority with
        primaryBackendId := repair.targetBackendId, primaryStatus := .ready })
    | .replica =>
      .ok (true, { authority with
        replicaBackendId := some repair.targetBackendId, replicaStatus := .ready })
    | .cleanup => .ok (false, authority)

/-! ### What a finished repair does -/

/-- The authority names the backend as its primary or its replica. -/
def ObjectAuthority.Names (authority : ObjectAuthority) (backend : String) : Prop :=
  authority.primaryBackendId = backend ∨ authority.replicaBackendId = some backend

/-- The backend that a repair leaves in the other role: a placement without a replica drops the
replica with its primary leg. -/
def ObjectAuthority.keptBackend (authority : ObjectAuthority) (repair : RepairRecord) :
    Option String :=
  match repair.targetRole with
  | .primary =>
    if repair.kind = .placement ∧ repair.placementReplicaBackendId = none then none
    else authority.replicaBackendId
  | .replica => some authority.primaryBackendId
  | .cleanup => none

variable {repair : RepairRecord} {previous moved : ObjectAuthority}

theorem ObjectAuthority.names_of_kept {authority : ObjectAuthority}
    {backend : String} (h : authority.keptBackend repair = some backend) :
    authority.Names backend := by
  unfold keptBackend at h
  split at h
  · split at h
    · cases h
    · exact .inr h
  · exact .inl (Option.some.inj h)
  · cases h

/-- Is the other half of the requested placement already in place, so that this leg cuts over? -/
def ObjectAuthority.otherLegDone (authority : ObjectAuthority) (repair : RepairRecord) : Prop :=
  match repair.targetRole with
  | .primary => repair.placementReplicaBackendId = none ∨
      (authority.replicaBackendId = repair.placementReplicaBackendId ∧
        authority.replicaStatus = .ready)
  | .replica => some authority.primaryBackendId = repair.placementPrimaryBackendId ∧
      authority.primaryStatus = .ready
  | .cleanup => False

/-- The authority `moved` is `previous` with the repair's target in the repair's role.  The exact
version that `previous` selected stays. -/
structure Moves (previous : ObjectAuthority) (repair : RepairRecord) (moved : ObjectAuthority) :
    Prop where
  logical : moved.logical = previous.logical
  generation : moved.generation = previous.generation
  size : moved.size = previous.size
  tombstone : moved.tombstone = previous.tombstone
  primaryVersionId : moved.primaryVersionId = previous.primaryVersionId
  names : ∀ backend, moved.Names backend →
    backend = repair.targetBackendId ∨ previous.keptBackend repair = some backend
  primary : moved.primaryBackendId = previous.primaryBackendId ∨
    (repair.targetRole = .primary ∧ moved.primaryBackendId = repair.targetBackendId)
  placement : repair.kind = .placement → previous.placementVersion ≤ repair.placementVersion ∧
    (repair.targetRole = .primary →
      repair.placementPrimaryBackendId = some repair.targetBackendId)
  cutsOver : repair.kind = .placement → moved.placementVersion = repair.placementVersion →
    previous.placementVersion = repair.placementVersion ∨ previous.otherLegDone repair

theorem applyLeg_moves {primary : String} (hp : repair.placementPrimaryBackendId = some primary)
    (hv : previous.placementVersion ≤ repair.placementVersion)
    (h : previous.applyLeg repair primary = some moved) :
    Moves previous repair moved ∧ moved.placementVersion = previous.placementVersion ∧
      (moved.locationsMatch primary repair.placementReplicaBackendId = true →
        previous.otherLegDone repair) := by
  unfold ObjectAuthority.applyLeg at h
  cases hr : repair.targetRole with
  | primary =>
    rw [hr] at h
    dsimp only at h
    split at h
    · rename_i ht
      subst ht
      cases hrep : repair.placementReplicaBackendId with
      | none =>
        rw [hrep] at h
        cases h
        refine ⟨⟨rfl, rfl, rfl, rfl, rfl, ?_, .inr ⟨hr, rfl⟩, fun _ => ⟨hv, fun _ => hp⟩,
          fun _ hv' => .inl hv'⟩, rfl, fun _ => ?_⟩
        · rintro b (h | h)
          · exact .inl h.symm
          · cases h
        · simp [ObjectAuthority.otherLegDone, hr, hrep]
      | some =>
        rw [hrep] at h
        cases h
        refine ⟨⟨rfl, rfl, rfl, rfl, rfl, ?_, .inr ⟨hr, rfl⟩, fun _ => ⟨hv, fun _ => hp⟩,
          fun _ hv' => .inl hv'⟩, rfl, fun hm => ?_⟩
        · rintro b (h | h)
          · exact .inl h.symm
          · exact .inr (by simpa [ObjectAuthority.keptBackend, hr, hrep] using h)
        · simp [ObjectAuthority.locationsMatch] at hm
          simp [ObjectAuthority.otherLegDone, hr, hrep, hm]
    · cases h
  | replica =>
    rw [hr] at h
    dsimp only at h
    split at h
    · rename_i ht
      cases h
      refine ⟨⟨rfl, rfl, rfl, rfl, rfl, ?_, .inl rfl, fun _ => ⟨hv, fun h => ?_⟩,
        fun _ hv' => .inl hv'⟩, rfl, fun hm => ?_⟩
      · rintro b (h | h)
        · exact .inr (by simpa [ObjectAuthority.keptBackend, hr] using h)
        · exact .inl (Option.some.inj h).symm
      · rw [hr] at h
        cases h
      · simp only [ObjectAuthority.locationsMatch, Bool.and_eq_true, beq_iff_eq] at hm
        simp [ObjectAuthority.otherLegDone, hr, hp, hm.1.1, hm.1.2]
    · cases h
  | cleanup =>
    rw [hr] at h
    cases h

/-- **What an applied repair does to the authority.** -/
theorem applyRepairToAuthority_moves
    (h : applyRepairToAuthority previous repair = .ok (true, moved)) :
    Moves previous repair moved := by
  unfold applyRepairToAuthority at h
  split at h
  · rename_i hk
    split at h
    · cases h
    rename_i primary hp
    split at h
    · cases h
    rename_i hv
    split at h
    · cases h
    rename_i leg hleg
    obtain ⟨hm, hver, hdone⟩ := applyLeg_moves hp (Nat.le_of_not_lt hv) hleg
    split at h
    · rename_i hmatch
      cases h
      exact ⟨hm.logical, hm.generation, hm.size, hm.tombstone, hm.primaryVersionId, hm.names,
        hm.primary, hm.placement, fun _ _ => .inr (hdone hmatch)⟩
    · cases h
      exact hm
  · rename_i hk
    split at h
    · rename_i hr
      cases h
      refine ⟨rfl, rfl, rfl, rfl, rfl, ?_, .inr ⟨hr, rfl⟩, fun h => absurd h hk,
        fun h => absurd h hk⟩
      rintro b (h | h)
      · exact .inl h.symm
      · exact .inr (by simpa [ObjectAuthority.keptBackend, hr, hk] using h)
    · rename_i hr
      cases h
      refine ⟨rfl, rfl, rfl, rfl, rfl, ?_, .inl rfl, fun h => absurd h hk, fun h => absurd h hk⟩
      rintro b (h | h)
      · exact .inr (by simpa [ObjectAuthority.keptBackend, hr] using h)
      · exact .inl (Option.some.inj h).symm
    · cases h

/-! ### The state of the repository -/

/-- `MemoryState`, without the placement-policy fingerprints. -/
structure MemoryState where
  authorities : KeyMap LogicalObjectKey ObjectAuthority
  logicalOperations : KeyMap Uuid ManagedLogicalOperation
  workspaceUsage : KeyMap String ManagedWorkspaceUsage
  repairs : KeyMap Uuid (RepairRecord × RepairStatus)
  physicalWriteIntents : KeyMap Uuid PhysicalWriteIntent
  blockedWriteIntents : KeyMap Uuid String
  physicalWriteLeases : KeyMap Uuid Int
  physicalWriteTokens : KeyMap Uuid Uuid
  physicalWriteEpochs : KeyMap Uuid Nat
  physicalVersions : List PhysicalVersionTarget
  fencedNamespaces : KeyMap String Uuid
  purges : KeyMap Uuid MemoryPurge
  namespaceEpochs : KeyMap String Nat
  routingEpochs : KeyMap String Nat
  multipartActivities : KeyMap String (String × Nat)
  confirmedMultipartActivities : List String
  multipartRegistrationExpiry : KeyMap String Int
  listCursors : KeyMap Uuid ManagedListCursor
  listCursorSuccessors : KeyMap Uuid Uuid

namespace MemoryState

/-- `InMemoryManagedRepository::new` -/
def new : MemoryState where
  authorities := ∅
  logicalOperations := ∅
  workspaceUsage := ∅
  repairs := ∅
  physicalWriteIntents := ∅
  blockedWriteIntents := ∅
  physicalWriteLeases := ∅
  physicalWriteTokens := ∅
  physicalWriteEpochs := ∅
  physicalVersions := []
  fencedNamespaces := ∅
  purges := ∅
  namespaceEpochs := ∅
  routingEpochs := ∅
  multipartActivities := ∅
  confirmedMultipartActivities := []
  multipartRegistrationExpiry := ∅
  listCursors := ∅
  listCursorSuccessors := ∅

-- Every reader takes 1 for a missing epoch, so `entry(..).or_insert(1)` is a read.
def namespaceEpoch (s : MemoryState) (tenant : String) : Nat :=
  (s.namespaceEpochs.get? tenant).getD 1

def routingEpoch (s : MemoryState) (tenant : String) : Nat :=
  (s.routingEpochs.get? tenant).getD 1

def fenced (s : MemoryState) (tenant : String) : Bool := s.fencedNamespaces.contains tenant

/-- Does the ledger hold a physical version of the repair's generation on its target? -/
def ledgerHolds (s : MemoryState) (repair : RepairRecord) : Bool :=
  s.physicalVersions.any fun target =>
    target.tenantId == repair.logical.tenantId && target.backendId == repair.targetBackendId &&
      target.physicalKey == repair.physicalKey

end MemoryState

/-! ### Inserting repair rows -/

/-- Two records of one task: the key by which repairs are deduplicated. -/
def RepairRecord.sameTask (a b : RepairRecord) : Bool :=
  a.kind == b.kind && a.generation == b.generation && a.targetBackendId == b.targetBackendId

/-- The record that replaces a `DONE` row of the same task. -/
def RepairRecord.revive (repair existing : RepairRecord) (now : Int) : RepairRecord :=
  { repair with
    id := existing.repairId, repairId := existing.repairId, updatedAtMs := now
    leaseOwner := none, leaseToken := none, leaseExpiresAtMs := none }

def insertMemoryRepair (now : Int) (s : MemoryState) (repair : RepairRecord) : MemoryState :=
  match s.repairs.findEntry fun row => row.1.sameTask repair with
  | some (key, existing, status) =>
    if status = .done then
      { s with repairs := s.repairs.insert key (repair.revive existing now, .pending) }
    else s
  | none => { s with repairs := s.repairs.insert repair.repairId (repair, .pending) }

def insertMemoryWaitingPlacementCleanup (s : MemoryState) (repair : RepairRecord) : MemoryState :=
  if s.repairs.any fun row => row.1.sameTask repair then s
  else { s with repairs := s.repairs.insert repair.repairId (repair, .waitingCutover) }

def RepairRecord.underEpoch (repair : RepairRecord) (epoch : Nat) : RepairRecord :=
  { repair with namespaceEpoch := epoch }

/-- Insert a list of repairs, each under the given namespace epoch. -/
def insertRepairs (now : Int) (epoch : Nat) (s : MemoryState) (repairs : List RepairRecord) :
    MemoryState :=
  repairs.foldl (fun s repair => insertMemoryRepair now s (repair.underEpoch epoch)) s

/-- Insert a cleanup, if the ledger holds what it would delete. -/
def insertLedgeredRepair (now : Int) (epoch : Nat) (s : MemoryState) (repair : RepairRecord) :
    MemoryState :=
  if s.ledgerHolds repair then insertMemoryRepair now s (repair.underEpoch epoch) else s

def insertLedgeredRepairs (now : Int) (epoch : Nat) (s : MemoryState)
    (repairs : List RepairRecord) : MemoryState :=
  repairs.foldl (insertLedgeredRepair now epoch) s

/-! ### Only the repair rows change -/

/-- The two states agree outside the repair rows. -/
def OnlyRepairs (s s' : MemoryState) : Prop := s' = { s with repairs := s'.repairs }

theorem OnlyRepairs.refl (s : MemoryState) : OnlyRepairs s s := rfl

theorem OnlyRepairs.trans {s s₁ s₂ : MemoryState} (h₁ : OnlyRepairs s s₁)
    (h₂ : OnlyRepairs s₁ s₂) : OnlyRepairs s s₂ := by
  unfold OnlyRepairs at *
  rw [h₂, h₁]

theorem OnlyRepairs.foldl {α : Type} {f : MemoryState → α → MemoryState}
    (h : ∀ s a, OnlyRepairs s (f s a)) (l : List α) (s : MemoryState) :
    OnlyRepairs s (l.foldl f s) := by
  induction l generalizing s with
  | nil => exact .refl s
  | cons a l ih => exact (h s a).trans (ih _)

theorem insertMemoryRepair_only (now : Int) (s : MemoryState) (repair : RepairRecord) :
    OnlyRepairs s (insertMemoryRepair now s repair) := by
  unfold insertMemoryRepair
  split
  · split
    · rfl
    · exact .refl s
  · rfl

theorem insertMemoryWaitingPlacementCleanup_only (s : MemoryState) (repair : RepairRecord) :
    OnlyRepairs s (insertMemoryWaitingPlacementCleanup s repair) := by
  unfold insertMemoryWaitingPlacementCleanup
  split
  · exact .refl s
  · rfl

theorem insertRepairs_only (now : Int) (epoch : Nat) (s : MemoryState)
    (repairs : List RepairRecord) : OnlyRepairs s (insertRepairs now epoch s repairs) :=
  .foldl (fun s _ => insertMemoryRepair_only now s _) repairs s

theorem insertLedgeredRepairs_only (now : Int) (epoch : Nat) (s : MemoryState)
    (repairs : List RepairRecord) : OnlyRepairs s (insertLedgeredRepairs now epoch s repairs) := by
  refine .foldl (fun s repair => ?_) repairs s
  unfold insertLedgeredRepair
  split
  · exact insertMemoryRepair_only now s _
  · exact .refl s

end S4.Managed
