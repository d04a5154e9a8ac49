import S4.Managed.Rows
import S4.Managed.Sinks

/-!
# Managed — Versions

Reads ask the primary backend for the version that the authority records.  Was that version made by
that backend (`VersionsMade`)?  An authority is built by `ManagedReplicatedSink::complete` from the
version that its primary destination has just committed to the ledger, so it starts out so.  A
finished repair of the primary moves `primary_backend_id` to the repair's target and leaves
`primary_version_id` as it is (`migrated_primary_keeps_version`).

The ledger forgets versions, so the writes that were committed are recorded beside the repository
(`VersionedState`).  `KeepsVersionedPrimary` says that a finished repair does not move the primary
of an authority with a version.  In every run of such steps the property holds
(`versionsMade_of_guarded`).
-/

namespace S4.Managed

open Lib
open Transaction (StoredObjectMeta)

/-! ### Runs with the committed writes -/

/-- A version that a committed physical write has made. -/
structure CommittedVersion where
  backendId : String
  physicalKey : String
  versionId : Option String
deriving DecidableEq

/-- The repository, and every version that a committed write ever made. -/
structure VersionedState where
  repo : MemoryState
  versions : List CommittedVersion

/-- The calls that only a completing sink makes. -/
def Call.publishes : Call → Bool
  | .publish .. | .commitLogicalPut .. => true
  | _ => false

/-- The versions that a call commits: those of a write whose commit succeeds. -/
def MemoryState.commitsVersions (s : MemoryState) (env : CallEnv) : Call → List CommittedVersion
  | .commitPhysicalWrite lease superseded version =>
    match (commitPhysicalWrite env s lease superseded version).1,
      s.physicalWriteIntents.get? lease.intentId with
    | .ok _, some intent => (superseded.map some ++ [version]).map fun version =>
      ⟨intent.backendId, intent.physicalKey, version⟩
    | _, _ => []
  | _ => []

variable {a : ObjectAuthority} {c : Call} {sink : ManagedReplicatedSink}
  {primary : StoredObjectMeta} {C : VersionedState → VersionedEvent → Prop}
  {replicaCompleted : Bool} {now : Int}

section Runs

variable [Sha256] {w w' : VersionedState} {env : CallEnv}

def VersionedState.next (env : CallEnv) (w : VersionedState) (c : Call) : VersionedState where
  repo := c.next env w.repo
  versions := w.repo.commitsVersions env c ++ w.versions

inductive VersionedEvent where
  | call (env : CallEnv) (c : Call)
  | complete (env : CallEnv) (sink : ManagedReplicatedSink) (primary : StoredObjectMeta)
      (replicaCompleted : Bool)
  | rehash

/-- The steps of the storage.  A sink completes once its primary destination has: that destination's
write goes to the placement's primary, under the generation's key, and its commit has succeeded. -/
inductive VersionedStep : VersionedState → VersionedEvent → VersionedState → Prop where
  | call {w : VersionedState} {env : CallEnv} {c : Call} (he : env.Fresh w.repo)
      (hf : c.fresh w.repo) (hc : c.publishes = false) :
      VersionedStep w (.call env c) (w.next env c)
  | complete {w : VersionedState} {env : CallEnv} {sink : ManagedReplicatedSink}
      {primary : StoredObjectMeta} {replicaCompleted : Bool} {now : Int} {c : Call}
      (he : env.Fresh w.repo) (hc : sink.publication primary replicaCompleted now = some c)
      (hw : ⟨sink.placement.primaryBackendId, generationPhysicalKey sink.logical sink.generation,
        primary.versionId⟩ ∈ w.versions) :
      VersionedStep w (.complete env sink primary replicaCompleted) (w.next env c)
  | rehash {w : VersionedState} {s : MemoryState} (h : SameContents w.repo s) :
      VersionedStep w .rehash ⟨s, w.versions⟩

def VersionedInit (w : VersionedState) : Prop := w = ⟨.new, []⟩

/-- The version that the authority records was made by its primary backend, for its generation. -/
def VersionedState.Made (w : VersionedState) (a : ObjectAuthority) : Prop :=
  ∀ v, a.primaryVersionId = some v →
    ⟨a.primaryBackendId, generationPhysicalKey a.logical a.generation, some v⟩ ∈ w.versions

/-- **Every version that a read asks the primary for was made by the primary.** -/
def VersionsMade (w : VersionedState) : Prop :=
  ∀ l a, w.repo.authorities.get? l = some a → a.tombstone = false → a.primaryStatus = .ready →
    w.Made a

/-- A finished repair does not move the primary of an authority that records a version. -/
def KeepsVersionedPrimary (w : VersionedState) : VersionedEvent → Prop
  | .call env (.completeRepair repair) => w.repo.holdsRepair env.now repair = true →
      ∀ a, w.repo.repairable repair = some a → repair.targetRole = .primary →
        (repair.kind = .placement → a.placementVersion ≤ repair.placementVersion ∧
          repair.placementPrimaryBackendId = some repair.targetBackendId) →
        a.primaryVersionId = none ∨ repair.targetBackendId = a.primaryBackendId
  | _ => True

/-! ### The invariant -/

/-- The live authorities, whatever the status of their primary. -/
def LiveMade (w : VersionedState) : Prop :=
  ∀ l a, w.repo.authorities.get? l = some a → a.tombstone = false → w.Made a

theorem VersionedState.Made.mono (h : w.Made a) (hv : w.versions ⊆ w'.versions) : w'.Made a :=
  fun v hv' => hv (h v hv')

/-- A live authority is put in place: it is made, and the others stay. -/
theorem LiveMade.insert {l : LogicalObjectKey} (h : LiveMade w)
    (hv : w.versions ⊆ w'.versions) (hs : w'.repo.authorities = w.repo.authorities.insert l a)
    (ha : a.tombstone = false → w.Made a) : LiveMade w' := by
  intro l' a' ha' hlive
  rw [hs] at ha'
  obtain ⟨-, rfl⟩ | ⟨-, ha'⟩ := KeyMap.get?_insert_cases ha'
  · exact (ha hlive).mono hv
  · exact (h l' a' ha' hlive).mono hv

theorem LiveMade.drops {tenant : String} (h : LiveMade w) (hv : w.versions ⊆ w'.versions)
    (hd : Drops env tenant w.repo w'.repo) : LiveMade w' := by
  intro l a ha hlive
  rw [hd.authorities, MemoryState.dropNamespace, KeyMap.get?_retain,
    Option.filter_eq_some_iff] at ha
  exact (h l a ha.1 hlive).mono hv

/-- What the candidate of an installing call must be, if it is live. -/
theorem LiveMade.next (h : LiveMade w) (hk : KeepsVersionedPrimary w (.call env c))
    (hc : ∀ a, c.candidate env w.repo = some a → a.tombstone = false → w.Made a) :
    LiveMade (w.next env c) := by
  have hv : w.versions ⊆ (w.next env c).versions := List.subset_append_right _ _
  obtain e | ⟨-, a, cas, epoch, ha, -, hi⟩ | ⟨l, old, new, hold, e, hch⟩ | ⟨tenant, hd⟩ :=
    c.next_authorities env w.repo
  · intro l a ha hlive
    exact (h l a (e ▸ ha) hlive).mono hv
  · exact h.insert hv hi.authorities fun hlive v hver => hc a ha hlive v hver
  · refine h.insert hv e fun hlive v hver => ?_
    have hmade := h l old hold (hch.tombstone ▸ hlive) v (hch.primaryVersionId ▸ hver)
    rw [hch.logical, hch.generation]
    rcases hch.primary with hp | ⟨repair, rfl, hheld, hfound, hrole, hp, hplace⟩
    · rw [hp]
      exact hmade
    · -- The repair names a new primary: the condition says that it is the old one.
      rcases hk hheld old hfound hrole hplace with hnone | hsame
      · rw [hch.primaryVersionId, hnone] at hver
        cases hver
      · rw [hp, hsame]
        exact hmade
  · exact h.drops hv hd

omit [Sha256] in
/-- A call that is not a publication installs only tombstones. -/
theorem Call.candidate_tombstone {s : MemoryState}
    (hc : c.publishes = false) (ha : c.candidate env s = some a) : a.tombstone = true := by
  cases c with
  | tombstone =>
    cases ha
    rfl
  | commitLogicalDelete =>
    simp only [Call.candidate, Option.map_eq_some_iff] at ha
    obtain ⟨operation, -, rfl⟩ := ha
    rfl
  | publish => cases hc
  | commitLogicalPut => cases hc
  | _ => cases ha

omit [Sha256] in
/-- A completing sink publishes its own authority, in one of two ways. -/
theorem ManagedReplicatedSink.publication_cases
    (hc : sink.publication primary replicaCompleted now = some c) :
    ∃ size digest,
      c = .publish (sink.authority size digest primary replicaCompleted now) sink.expectedCas ∨
      ∃ id allocated, c =
        .commitLogicalPut id (sink.authority size digest primary replicaCompleted now)
          allocated := by
  unfold publication at hc
  split at hc
  · cases hc
  · split at hc
    · cases hc
    · rename_i size digest hout
      dsimp only at hc
      split at hc
      · cases hc
        exact ⟨size, digest, .inl rfl⟩
      · obtain ⟨allocated, -, rfl⟩ := Option.map_eq_some_iff.mp hc
        exact ⟨size, digest, .inr ⟨_, allocated, rfl⟩⟩

/-- The authority of a sink whose primary destination has committed its version. -/
theorem ManagedReplicatedSink.authority_made {size : Nat} {digest : String}
    (hw : ⟨sink.placement.primaryBackendId,
      generationPhysicalKey sink.logical sink.generation, primary.versionId⟩ ∈ w.versions) :
    w.Made (sink.authority size digest primary replicaCompleted now) := by
  intro v hv
  rw [← hv]
  exact hw

theorem liveMade_of_guarded
    (r : Reach VersionedInit (Guarded VersionedStep KeepsVersionedPrimary) w) : LiveMade w := by
  refine r.invariant (I := LiveMade) ?_ ?_
  · rintro w rfl l a h
    cases h
  · intro w e w' _ h ⟨hs, hk⟩
    cases hs with
    | call he hf hc =>
      refine h.next hk fun a ha hlive => ?_
      rw [Call.candidate_tombstone hc ha] at hlive
      cases hlive
    | complete he hc hw =>
      obtain ⟨size, digest, rfl | ⟨id, allocated, rfl⟩⟩ :=
        ManagedReplicatedSink.publication_cases hc
      · refine h.next trivial fun a ha _ => ?_
        cases ha
        exact ManagedReplicatedSink.authority_made hw
      · refine h.next trivial fun a ha _ => ?_
        cases ha
        exact ManagedReplicatedSink.authority_made hw
    | rehash hsame =>
      exact fun l a ha hlive => h l a ((hsame.authorities.get?_eq l).trans ha) hlive

/-- **In every run that never moves the primary of an authority with a version, every version that a
read asks the primary for was made by the primary.** -/
theorem versionsMade_of_guarded
    (r : Reach VersionedInit (Guarded VersionedStep KeepsVersionedPrimary) w) : VersionsMade w :=
  fun l a ha hlive _ => liveMade_of_guarded r l a ha hlive

/-! ### A migrated primary -/

/-- The state after a call of a script. -/
def VersionedState.script (w : VersionedState) : Int × Nat × Call → VersionedState
  | (now, base, c) => w.next (.counting now base) c

def runVersioned (w : VersionedState) (script : Script) : VersionedState := script.foldl .script w

/-- A script without publications runs, under a condition that all its calls meet. -/
theorem guarded_runVersioned {script : Script} (r : Reach VersionedInit (Guarded VersionedStep C) w)
    (hp : plays .script (fun w x => Script.fresh w.repo x && !x.2.2.publishes) w script = true)
    (hC : ∀ entry ∈ script, ∀ w, C w (.call (.counting entry.1 entry.2.1) entry.2.2)) :
    Reach VersionedInit (Guarded VersionedStep C) (runVersioned w script) := by
  refine r.script hp fun w x hx h => ?_
  simp only [Script.fresh, Bool.and_eq_true, List.all_eq_true, decide_eq_true_eq,
    Bool.not_eq_true'] at h
  exact ⟨_, .call (CallEnv.counting_fresh x.1 h.1.1) h.1.2 h.2, hC x hx w⟩

end Runs

/-- What the primary destination of the sample put has stored. -/
def sampleStored : StoredObjectMeta := ⟨none, some "v", [], true⟩

/-- The state in which the sample put has been written and recorded, and the state it leaves. -/
def beforePublication : VersionedState :=
  letI := sampleSha256
  runVersioned ⟨.new, []⟩ (putScript.take 6)

def published : VersionedState :=
  letI := sampleSha256
  beforePublication.next (.counting 6 10)
    (.commitLogicalPut ⟨101⟩ (sampleSink.authority 3 "d" sampleStored true 6) 3)

theorem guarded_published
    (hC : ∀ entry ∈ putScript.take 6, ∀ w, C w (.call (.counting entry.1 entry.2.1) entry.2.2))
    (hc : C beforePublication (.complete (.counting 6 10) sampleSink sampleStored true)) :
    letI := sampleSha256
    Reach VersionedInit (Guarded VersionedStep C) published := by
  let _ := sampleSha256
  have r : Reach VersionedInit (Guarded VersionedStep C) beforePublication :=
    guarded_runVersioned (.init rfl) (by decide +kernel) hC
  exact r.step ⟨.complete (CallEnv.counting_fresh 6 (by decide +kernel)) rfl
    (by decide +kernel), hc⟩

/-- A leg that moves the primary to `c`: enqueue, claim, complete. -/
def moveLeg : RepairRecord :=
  letI := sampleSha256
  .placement 7 ⟨20⟩ { sampleAuthority with casVersion := 1 } (some "a") "c" .primary
    ⟨2, "c", some "b"⟩

def moveScript : Script :=
  [(7, 30, .enqueue moveLeg),
   (8, 40, .claimRepairs "w" 100 8),
   (9, 50, .completeRepair ((moveLeg.underEpoch 1).lease ⟨40⟩ "w" 100 8))]

/-- The published authority records a version that its primary made. -/
theorem published_versionsMade :
    ∃ (_ : Sha256) (w : VersionedState) (a : ObjectAuthority),
      w.repo.authorities.get? sampleKey = some a ∧ a.primaryVersionId = some "v" ∧
        VersionsMade w := by
  let _ := sampleSha256
  refine ⟨sampleSha256, published, { sampleAuthority with
    casVersion := 1, createdAtMs := 6, updatedAtMs := 6 }, by decide +kernel, rfl,
    versionsMade_of_guarded (guarded_published (fun entry h w => ?_) trivial)⟩
  simp only [putScript, List.take, List.mem_cons, List.not_mem_nil, or_false] at h
  rcases h with rfl | rfl | rfl | rfl | rfl | rfl <;> trivial

/-- **A migrated primary keeps the version of the backend it left.** -/
theorem migrated_primary_keeps_version :
    ∃ (_ : Sha256) (w : VersionedState), Reach VersionedInit VersionedStep w ∧
      ¬ VersionsMade w := by
  let _ := sampleSha256
  have r : Reach VersionedInit VersionedStep (runVersioned published moveScript) :=
    (guarded_runVersioned (C := fun _ _ => True)
      (guarded_published (fun _ _ _ => trivial) trivial) (by decide +kernel)
      fun _ _ _ => trivial).of_guarded
  refine ⟨sampleSha256, _, r, fun h => ?_⟩
  have ha : ((runVersioned published moveScript).repo.authorities.get? sampleKey).map
      (fun a => (a.tombstone, a.primaryStatus, a.primaryVersionId, a.primaryBackendId)) =
      some (false, .ready, some "v", "c") := by decide +kernel
  obtain ⟨a, hget, e⟩ := Option.map_eq_some_iff.mp ha
  simp only [Prod.mk.injEq] at e
  obtain ⟨hlive, hready, hversion, hprimary⟩ := e
  have hmade := h sampleKey a hget hlive hready "v" hversion
  have hall : ((runVersioned published moveScript).versions.all fun version =>
      version.backendId != "c") = true := by decide +kernel
  rw [List.all_eq_true] at hall
  have := hall _ hmade
  simp [hprimary] at this

end S4.Managed
