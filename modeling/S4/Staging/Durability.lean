import S4.Staging.Cleanup
import S4.Staging.Quota

/-!
# Staging — Durability of acknowledged parts

The repository together with the artifact store and any number of reconciliation workers.  A worker
takes the list of cleanup candidates, deletes their artifacts one by one, and confirms each
deletion; between any two of these steps the clients may do anything.

An acknowledged part can be lost in two ways.  A worker may have listed the attempt while it was
pending and old, and delete its artifact after the commit.  And a `commit_part` whose own attempt is
gone retires the previous part of that number before it fails.  Without such commits the last
acknowledged part of every number stays (`acknowledged_part_durable`).
-/

namespace S4.Staging

open Lib List MemoryState KeyMap

variable {x : MultipartIdentity × PendingPart} {identity : MultipartIdentity} {s : MemoryState}
  {part : MultipartPart} {C : World → Option Act → Prop} {now : Int} {h : History} {limit : Nat}
  {pk : String × Nat}

/-! ### The world -/

/-- A run of `reconcile_staged_artifacts`: the candidates it has not reached, and the artifact that
it has deleted and not confirmed. -/
structure Worker where
  todo : List CleanupCandidate
  deleted : Option String
deriving DecidableEq

def Worker.idle : Worker := ⟨[], none⟩

/-- The worker is going to delete the artifact, or to confirm its deletion. -/
def Worker.Holds (x : Worker) (key : String) : Prop :=
  (∃ c ∈ x.todo, c.artifactKey = key) ∨ x.deleted = some key

structure World where
  history : History
  /-- The artifacts that are there. -/
  store : List String
  /-- The keys for which `put_file` has returned. -/
  uploaded : List String
  workers : Nat → Worker

inductive Act where
  | call (env : CallEnv) (c : Call)
  | put (pending : PendingPart)
  | list (i : Nat) (now : Int)
  | delete (i : Nat) (ok removed : Bool)
  | confirm (i : Nat) (env : CallEnv)

/-- The limit that the worker passes to `cleanup_candidates`. -/
def reconcileLimit : Nat := 256

namespace World

def state (w : World) : MemoryState := w.history.state

def setWorker (w : World) (i : Nat) (x : Worker) : World :=
  { w with workers := Function.update w.workers i x }

/-- The worker deletes the artifact of its next candidate.  If that fails it goes on, and the
artifact may have been removed all the same. -/
def delete (w : World) (i : Nat) (ok removed : Bool) : World :=
  match (w.workers i).todo with
  | [] => w
  | c :: rest =>
    { w.setWorker i ⟨rest, if ok then some c.artifactKey else none⟩ with
      store := if ok || removed then w.store.filter (· ≠ c.artifactKey) else w.store }

/-- The worker confirms the deletion; if that fails it gives up. -/
def confirm (quotas : StagingQuotaLimits) (w : World) (i : Nat) (env : CallEnv) : World :=
  match (w.workers i).deleted with
  | none => w
  | some key =>
    let failed := match (confirmArtifactDeleted env w.state key).1 with
      | .ok _ => false
      | .error _ => true
    { w.setWorker i ⟨if failed then [] else (w.workers i).todo, none⟩ with
      history := w.history.next quotas env (.confirmArtifactDeleted key) }

/-- What the clients do with tickets: they commit after the upload, and discard only before it. -/
def clientCall (w : World) : Call → Bool
  | .confirmArtifactDeleted _ => false
  | .commitPart _ pending _ => w.uploaded.contains pending.artifactKey
  | .discardPending _ pending => !w.uploaded.contains pending.artifactKey
  | _ => true

/-- May the step be taken? -/
def Allows (w : World) : Act → Prop
  | .call env c => Orderly w.history (.call env c) ∧ w.clientCall c = true
  | .put pending => pending ∈ w.history.begun.map Prod.snd
  | .list i _ => w.workers i = .idle
  | .delete i .. => (w.workers i).deleted = none
  | .confirm _ _ => True

instance (w : World) (a : Act) : Decidable (w.Allows a) :=
  match a with
  | .call env c => inferInstanceAs (Decidable (Orderly w.history (.call env c) ∧ _))
  | .put pending => inferInstanceAs (Decidable (pending ∈ w.history.begun.map Prod.snd))
  | .list i _ => inferInstanceAs (Decidable (w.workers i = .idle))
  | .delete i .. => inferInstanceAs (Decidable ((w.workers i).deleted = none))
  | .confirm _ _ => inferInstanceAs (Decidable True)

/-- The world after the step. -/
def perform (quotas : StagingQuotaLimits) (w : World) : Act → World
  | .call env c => { w with history := w.history.next quotas env c }
  | .put pending =>
    { w with store := pending.artifactKey :: w.store,
             uploaded := pending.artifactKey :: w.uploaded }
  | .list i now => w.setWorker i ⟨w.state.candidates now reconcileLimit, none⟩
  | .delete i ok removed => w.delete i ok removed
  | .confirm i env => w.confirm quotas i env

end World

/-- The steps of the world: `none` is a change of the iteration order. -/
inductive WorldStep (quotas : StagingQuotaLimits) : World → Option Act → World → Prop where
  | act {w : World} {a : Act} (h : w.Allows a) : WorldStep quotas w (some a) (w.perform quotas a)
  | rehash {w : World} {s : MemoryState} (hs : SameContents w.state s) :
      WorldStep quotas w none { w with history := ⟨s, w.history.log⟩ }

def World.new : World := ⟨.new, [], [], fun _ => .idle⟩

def World.Init (w : World) : Prop := w = .new

/-- The world's history is a history of the repository. -/
theorem World.reach_history {quotas : StagingQuotaLimits}
    {w : World} (r : Reach World.Init (Guarded (WorldStep quotas) C) w) :
    Reach History.Init (Guarded (Step quotas) Orderly) w.history := by
  induction r with
  | init hi =>
    cases hi
    exact .init rfl
  | step _ hs ih =>
    obtain ⟨hs, -⟩ := hs
    cases hs with
    | @act a h =>
      cases a with
      | call env c => exact .step ih ⟨.call env c, h.1⟩
      | put => exact ih
      | list => exact ih
      | delete =>
        simp only [World.perform, World.delete]
        split <;> exact ih
      | confirm i env =>
        simp only [World.perform, World.confirm]
        split
        · exact ih
        · exact .step ih ⟨.call env _, .of_none rfl rfl rfl rfl⟩
    | rehash hs => exact .step ih ⟨.rehash hs, .of_none rfl rfl rfl rfl⟩

/-! ### The last acknowledged part -/

/-- The part that the entry committed under the given upload and number. -/
def Entry.commits? (pk : String × Nat) (e : Entry) : Option MultipartPart :=
  match e.call, e.answer with
  | .commitPart identity _ part, .ok _ =>
    if (identity.uploadId, part.partNumber) = pk then some part else none
  | _, _ => none

/-- The part of the last acknowledged commit of that upload and number. -/
def History.lastCommit? (h : History) (pk : String × Nat) : Option MultipartPart :=
  h.log.findSome? (Entry.commits? pk)

/-- The attempt is pending. -/
def MemoryState.HasPending (s : MemoryState) (key : String) : Prop :=
  ∃ a, s.attempts.get? key = some a ∧ a.lifecycle = .pending

/-- The commits that lose no part: no worker has the attempt on its list, and the attempt is still
pending and its artifact there, or it is not and there is no part of that number to retire. -/
def SafeCommit (w : World) : Option Act → Prop
  | some (.call _ (.commitPart identity pending part)) =>
    (∀ i, ¬ (w.workers i).Holds pending.artifactKey) ∧
      (w.state.HasPending pending.artifactKey ∧ pending.artifactKey ∈ w.store ∨
        ¬ w.state.HasPending pending.artifactKey ∧
          w.state.parts.get? (identity.uploadId, part.partNumber) = none)
  | _ => True

/-- The upload is there and open. -/
def MemoryState.HasOpen (s : MemoryState) (id : String) : Prop :=
  ∃ u, s.uploads.get? id = some u ∧ u.lifecycle = .open

/-- The invariant. -/
structure Durable (w : World) : Prop where
  latest : ∀ pk part, w.history.lastCommit? pk = some part → w.state.HasOpen pk.1 →
    w.state.parts.get? pk = some part
  spoken : ∀ pk part, w.history.lastCommit? pk = some part → pk.1 ∈ w.history.created
  placed : ∀ pk part, w.state.parts.get? pk = some part →
    pk = (part.uploadId, part.partNumber) ∧ pk.1 ∈ w.history.created ∧
      part.artifactKey ∈ w.uploaded
  current : ∀ pk part, w.state.parts.get? pk = some part → w.state.HasOpen pk.1 →
    w.state.attempts.get? part.artifactKey = some ⟨part, 0, .current⟩
  unlisted : ∀ pk part, w.state.parts.get? pk = some part → w.state.HasOpen pk.1 →
    ∀ i, ¬ (w.workers i).Holds part.artifactKey
  kept : ∀ pk part, w.state.parts.get? pk = some part → w.state.HasOpen pk.1 →
    part.artifactKey ∈ w.store
  sent : ∀ key ∈ w.uploaded, ∃ x ∈ w.history.begun, x.2.artifactKey = key

/-! ### Workers -/

section Workers

variable {quotas : StagingQuotaLimits} {w : World} {i : Nat}

theorem World.workers_setWorker (x : Worker) (j : Nat) :
    (w.setWorker i x).workers j = if j = i then x else w.workers j := by
  simp only [setWorker, Function.update_apply]

/-- A worker may change as long as it holds no current part of an open upload. -/
theorem Durable.setWorker {x : Worker} (hD : Durable w)
    (hx : ∀ pk part, w.state.parts.get? pk = some part → w.state.HasOpen pk.1 →
      ¬ x.Holds part.artifactKey) : Durable (w.setWorker i x) where
  latest := hD.latest
  spoken := hD.spoken
  placed := hD.placed
  current := hD.current
  unlisted pk part hp hopen j := by
    rw [World.workers_setWorker]
    split
    · exact hx pk part hp hopen
    · exact hD.unlisted pk part hp hopen j
  kept := hD.kept
  sent := hD.sent

theorem Durable.list (hD : Durable w) :
    Durable (w.setWorker i ⟨w.state.candidates now reconcileLimit, none⟩) := by
  refine hD.setWorker ?_
  rintro pk part hp hopen (⟨c, hc, hkey⟩ | h)
  · -- a current part of an open upload is no candidate
    obtain ⟨a, ha, hcand⟩ := attempt_of_mem_candidates hc
    rw [hkey, hD.current pk part hp hopen] at ha
    cases ha
    obtain ⟨u, hu, hopen⟩ := hopen
    obtain ⟨u', hu', hne⟩ := (w.state.isCandidate_current now rfl).mp hcand
    rw [(hD.placed pk part hp).1] at hu
    cases hu.symm.trans hu'
    exact hne hopen
  · cases h

theorem Durable.delete {ok removed : Bool} (hD : Durable w) : Durable (w.delete i ok removed) := by
  rw [World.delete]
  split
  · exact hD
  next c rest htodo =>
  have hc : c ∈ (w.workers i).todo := by
    rw [htodo]
    exact mem_cons_self
  have hD' : Durable (w.setWorker i ⟨rest, if ok then some c.artifactKey else none⟩) := by
    refine hD.setWorker fun pk part hp hopen h => hD.unlisted pk part hp hopen i (.inl ?_)
    obtain ⟨d, hd, hkey⟩ | h := h
    · exact ⟨d, htodo ▸ mem_cons_of_mem _ hd, hkey⟩
    · split at h
      · exact ⟨c, hc, Option.some.inj h⟩
      · cases h
  refine { hD' with kept := fun pk part hp hopen => ?_ }
  -- the worker has the artifact on its list, so it is no current part
  have hne : part.artifactKey ≠ c.artifactKey := fun he =>
    hD.unlisted pk part hp hopen i (.inl ⟨c, hc, he.symm⟩)
  have hkept := hD.kept pk part hp hopen
  change part.artifactKey ∈ if ok || removed then w.store.filter (· ≠ c.artifactKey) else w.store
  split
  · exact mem_filter.mpr ⟨hkept, decide_eq_true hne⟩
  · exact hkept

theorem Durable.put (hD : Durable w)
    (hx : x ∈ w.history.begun) : Durable (w.perform quotas (.put x.2)) where
  latest := hD.latest
  spoken := hD.spoken
  placed pk part hp := by
    obtain ⟨hpk, hid, hkey⟩ := hD.placed pk part hp
    exact ⟨hpk, hid, mem_cons_of_mem _ hkey⟩
  current := hD.current
  unlisted := hD.unlisted
  kept pk part hp hopen := mem_cons_of_mem _ (hD.kept pk part hp hopen)
  sent key hkey := by
    obtain rfl | hkey := mem_cons.mp hkey
    · exact ⟨x, hx, rfl⟩
    · exact hD.sent key hkey

end Workers

/-! ### Calls -/

section Calls

variable {quotas : StagingQuotaLimits} {env : CallEnv} {w : World} {c : Call}

theorem History.mem_begun_next (hx : x ∈ h.begun) : x ∈ (h.next quotas env c).begun := by
  simp only [History.begun, History.next, filterMap_cons]
  split
  · exact hx
  · exact mem_cons_of_mem _ hx

theorem LifecycleMove.of_open {l : MultipartLifecycle} (h : LifecycleMove l .open) : l = .open := by
  cases h
  rfl

/-- An upload that is open after a call was open before, or is new. -/
theorem History.open_before {id : String} (hfresh : FreshUploads h (.call env c))
    (hopen : (h.next quotas env c).state.HasOpen id) : h.state.HasOpen id ∨ id ∉ h.created := by
  obtain ⟨u', hu', hopen⟩ := hopen
  by_cases hc : ∃ upload, c = .create upload
  · obtain ⟨upload, rfl⟩ := hc
    obtain hu | ⟨rfl, -⟩ := create_get? hu'
    · exact .inl ⟨u', hu, hopen⟩
    · exact .inr (hfresh upload rfl)
  · obtain ⟨u, hu, ha⟩ := (Call.fated (not_exists.mp hc)).advance hu'
    have hmove := ha.lifecycleMove
    rw [hopen] at hmove
    exact .inl ⟨u, hu, hmove.of_open⟩

/-- What a call other than `commit_part` does to attempts and parts: no part appears, and the parts
of open uploads stay with their attempts. -/
structure Gentle (w : World) (s' : MemoryState) : Prop where
  parts : ∀ pk part, s'.parts.get? pk = some part → w.state.parts.get? pk = some part
  stay : ∀ pk part, w.state.parts.get? pk = some part → s'.HasOpen pk.1 →
    s'.parts.get? pk = some part ∧
      s'.attempts.get? part.artifactKey = w.state.attempts.get? part.artifactKey

/-- **A call other than `commit_part` loses no part.** -/
theorem Durable.next (hD : Durable w) (hfresh : FreshUploads w.history (.call env c))
    (hcommit : ∀ pk, (c.entry quotas env w.state).commits? pk = none)
    (hG : Gentle w (w.history.next quotas env c).state) :
    Durable { w with history := w.history.next quotas env c } := by
  have hlast (pk : String × Nat) :
      (w.history.next quotas env c).lastCommit? pk = w.history.lastCommit? pk := by
    have h := hcommit pk
    rw [Call.entry] at h
    simp only [History.lastCommit?, History.next, findSome?_cons]
    rw [show Entry.commits? pk ⟨c, (c.run quotas env w.history.state).1⟩ = none from h]
  have hback {id : String} (hid : id ∈ w.history.created)
      (hopen : (w.history.next quotas env c).state.HasOpen id) : w.state.HasOpen id :=
    (History.open_before hfresh hopen).resolve_right fun h => h hid
  constructor
  case latest =>
    intro pk part hp hopen
    simp only [hlast] at hp
    have hp₀ := hD.latest pk part hp (hback (hD.spoken pk part hp) hopen)
    exact (hG.stay pk part hp₀ hopen).1
  case spoken =>
    intro pk part hp
    simp only [hlast] at hp
    exact History.mem_created_next (hD.spoken pk part hp)
  case placed =>
    intro pk part hp
    obtain ⟨hpk, hid, hkey⟩ := hD.placed pk part (hG.parts pk part hp)
    exact ⟨hpk, History.mem_created_next hid, hkey⟩
  case current =>
    intro pk part hp hopen
    have hp₀ := hG.parts pk part hp
    have hopen₀ := hback (hD.placed pk part hp₀).2.1 hopen
    exact (hG.stay pk part hp₀ hopen).2.trans (hD.current pk part hp₀ hopen₀)
  case unlisted =>
    intro pk part hp hopen
    have hp₀ := hG.parts pk part hp
    exact hD.unlisted pk part hp₀ (hback (hD.placed pk part hp₀).2.1 hopen)
  case kept =>
    intro pk part hp hopen
    have hp₀ := hG.parts pk part hp
    exact hD.kept pk part hp₀ (hback (hD.placed pk part hp₀).2.1 hopen)
  case sent =>
    intro key hkey
    obtain ⟨x, hx, h⟩ := hD.sent key hkey
    exact ⟨x, History.mem_begun_next hx, h⟩

/-- Parts and attempts are as they were. -/
theorem Gentle.of_eq {s' : MemoryState} (hatt : s'.attempts = w.state.attempts)
    (hparts : s'.parts = w.state.parts) : Gentle w s' where
  parts pk part hp := hparts ▸ hp
  stay pk part hp _ := by
    rw [hatt, hparts]
    exact ⟨hp, rfl⟩

theorem beginPart_gentle {partNumber reservedBytes : Nat} (hD : Durable w)
    (hkey : ∀ x ∈ w.history.begun,
      x.2.artifactKey ≠ formatArtifactKey identity partNumber env.uuid) :
    Gentle w (beginPart quotas env w.state identity partNumber reservedBytes now).2 := by
  obtain ⟨e, he⟩ | ⟨upload, pending, attempt, -, -, -, -, -, rfl, he⟩ :=
    beginPart_cases quotas env w.state identity partNumber reservedBytes now
  · rw [he]
    exact .of_eq rfl rfl
  · have hne {key : String} (h : key ∈ w.uploaded) :
        key ≠ (PendingPart.make identity partNumber attempt reservedBytes
          env.uuid).artifactKey := by
      obtain ⟨x, hx, rfl⟩ := hD.sent key h
      exact hkey x hx
    rw [he]
    refine ⟨fun _ _ hp => hp, fun pk part hp _ => ⟨hp, ?_⟩⟩
    simp only [MemoryState.open]
    rw [get?_insert, if_neg (hne (hD.placed pk part hp).2.2)]

/-- Forgetting an artifact that is no current part of an open upload. -/
theorem confirmArtifactDeleted_gentle {key : String}
    (hkey : ∀ pk part, w.state.parts.get? pk = some part → w.state.HasOpen pk.1 →
      part.artifactKey ≠ key) :
    Gentle w (confirmArtifactDeleted env w.state key).2 := by
  rw [Staging.confirmArtifactDeleted]
  split
  · exact .of_eq rfl rfl
  next a ha =>
  have hforget (s' : MemoryState) (hatt : s'.attempts = (w.state.forget key).attempts)
      (hparts : s'.parts = (w.state.forget key).parts)
      (hup : ∀ id, s'.HasOpen id → w.state.HasOpen id) : Gentle w s' := by
    refine ⟨?_, ?_⟩
    · intro pk part hp
      simp only [hparts, forget, get?_retain,
        Option.filter_eq_some_iff] at hp
      exact hp.1
    · intro pk part hp hopen
      have hne := hkey pk part hp (hup _ hopen)
      simp only [hatt, hparts, forget, get?_retain, get?_erase,
        if_neg hne, hp]
      exact ⟨by simp [hne], trivial⟩
  have hquiet := confirmArtifactDeleted_quiet env w.state key
  simp only [Staging.confirmArtifactDeleted, ha] at hquiet
  have hup (id : String) (h : ((w.state.forget key).release env a).2.HasOpen id) :
      w.state.HasOpen id := by
    obtain ⟨u', hu', hopen⟩ := h
    have hf := hquiet id
    rw [hu'] at hf
    obtain ⟨u, hu, hadv⟩ := hf.of_after
    have hmove := hadv.lifecycleMove
    rw [hopen] at hmove
    exact ⟨u, hu, hmove.of_open⟩
  refine hforget _ ?_ ?_ hup
  · simp only [release]
    repeat' split
    all_goals rfl
  · simp only [release]
    repeat' split
    all_goals rfl

theorem abort_gentle {identity : MultipartIdentity} {now : Int} :
    Gentle w (abort w.state identity now).2 := by
  rw [abort]
  split
  · exact .of_eq rfl rfl
  split
  · split <;> exact .of_eq rfl rfl
  refine ⟨fun _ _ hp => get?_extractParts hp, ?_⟩
  rintro pk part hp ⟨u, hu, hopen⟩
  refine ⟨?_, rfl⟩
  simp only [extractParts, modifyUpload, get?_modify] at hu
  have hne : pk.1 ≠ identity.uploadId := by
    intro he
    rw [if_pos he] at hu
    obtain ⟨u₀, -, rfl⟩ := Option.map_eq_some_iff.mp hu
    cases hopen
  simp [extractParts, modifyUpload, hp, hne]

theorem reapExpired_gentle (hA : Accounts quotas w.state) {now : Int} :
    Gentle w (reapExpired w.state now limit).2 := by
  refine ⟨fun _ _ hp => get?_extractParts hp, ?_⟩
  rintro pk part hp ⟨u, hu, hopen⟩
  refine ⟨?_, rfl⟩
  simp only [reapExpired, extractParts, get?_mapValues] at hu
  have hnot : pk.1 ∉ (w.state.expiredUploads now limit).map fun e => e.2.identity.uploadId := by
    intro hmem
    obtain ⟨e, he, hid⟩ := mem_map.mp hmem
    have hget := mem_toList_iff.mp (mem_filter.mp (mem_of_mem_take he)).1
    have hkey : e.1 = pk.1 := (hA.keyed e.1 e.2 hget).symm.trans hid
    simp only [if_pos (mem_map.mpr ⟨e, he, hkey⟩)] at hu
    obtain ⟨u₀, -, rfl⟩ := Option.map_eq_some_iff.mp hu
    cases hopen
  simp only [reapExpired, extractParts, get?_retain, hp]
  simpa using hnot

/-! ### `commit_part` -/

theorem MemoryState.get?_retire_ne {previous : Option MultipartPart} {k : String}
    (h : ∀ old, previous = some old → k ≠ old.artifactKey) :
    (s.retire previous).attempts.get? k = s.attempts.get? k := by
  cases previous with
  | none => rfl
  | some old =>
    simp only [retire, get?_modify]
    rw [if_neg (h old rfl)]

/-- A safe commit fails and changes nothing, or replaces the part of its number. -/
theorem commitPart_cases (hB : Balanced quotas w.history.begun w.state) (hx : x ∈ w.history.begun)
    (hsafe : SafeCommit w (some (.call env (.commitPart x.1 x.2 part)))) :
    (∃ e, commitPart env w.state x.1 x.2 part = (.error e, w.state)) ∨
      ∃ u a f s', w.state.uploads.get? x.1.uploadId = some u ∧ u.lifecycle = .open ∧
        x.2.covers part = true ∧ w.state.attempts.get? x.2.artifactKey = some a ∧
        a.lifecycle = .pending ∧
        s'.uploads = w.state.uploads.modify x.1.uploadId f ∧
        (∀ u, (f u).lifecycle = u.lifecycle) ∧
        s'.parts = w.state.parts.insert (x.1.uploadId, part.partNumber) part ∧
        s'.attempts = (w.state.retire
          (w.state.parts.get? (x.1.uploadId, part.partNumber))).attempts.modify part.artifactKey
            (fun _ => ⟨part, 0, .current⟩) ∧
        commitPart env w.state x.1 x.2 part =
          (.ok (w.state.parts.get? (x.1.uploadId, part.partNumber)).toList, s') := by
  obtain ⟨hA, hT⟩ := hB
  obtain ⟨-, hlive⟩ := hsafe
  simp only [Staging.commitPart]
  split
  · exact .inl ⟨_, rfl⟩
  next hcovers =>
  have hcovers : x.2.covers part = true := by simpa using hcovers
  split
  · exact .inl ⟨_, rfl⟩
  next upload hupload =>
  obtain ⟨hu, -⟩ := authorized_eq_some hupload
  split
  · exact .inl ⟨_, rfl⟩
  next hopen =>
  -- if the attempt is not pending any more, there is nothing to retire
  have hretired : (∃ a, (w.state.retire (w.state.parts.get?
        (x.1.uploadId, part.partNumber))).attempts.get? x.2.artifactKey = some a ∧
        w.state.attempts.get? x.2.artifactKey = some a ∧ a.lifecycle = .pending ∧
        a.reservedBytes = x.2.reservedBytes) ∨
      w.state.parts.get? (x.1.uploadId, part.partNumber) = none := by
    refine hlive.imp ?_ And.right
    rintro ⟨⟨a, ha, hpending⟩, -⟩
    obtain ⟨y, hy, hk, -, hbytes⟩ := hT.attempts _ a ha
    obtain rfl := hT.unique y hy x hx hk
    refine ⟨a, ?_, ha, hpending, hbytes hpending⟩
    rw [get?_retire_ne, ha]
    rintro old hp he
    rw [he] at ha
    exact (hT.parts _ old hp).2 a ha hpending
  split
  next hnone =>
    obtain ⟨a, ha, -⟩ | hp := hretired
    · rw [hnone] at ha
      cases ha
    · rw [hp]
      exact .inl ⟨_, rfl⟩
  next a ha =>
  split
  next hdead =>
    obtain ⟨b, hb, -, hpending, hbytes⟩ | hp := hretired
    · cases ha.symm.trans hb
      obtain h | h := hdead
      · exact absurd hpending h
      · exact absurd hbytes h
    · rw [hp]
      exact .inl ⟨_, rfl⟩
  next hpending =>
  obtain ⟨hpending, hbytes⟩ := not_or.mp hpending
  obtain ⟨a₀, ha₀, -, heq⟩ := get?_retire ha
  obtain rfl := heq (not_ne_iff.mp hpending)
  have hu' := hu
  rw [← w.state.retire_uploads (w.state.parts.get? (x.1.uploadId, part.partNumber))]
    at hu'
  have hA' := hA.retire hT (x.1.uploadId, part.partNumber)
  have hT' := hT.retire (w.state.parts.get? (x.1.uploadId, part.partNumber))
  obtain ⟨f, hf, hs', -, -⟩ := hA'.settle env hT' hx hcovers hu' ha
    (not_ne_iff.mp hpending) (not_ne_iff.mp hbytes)
    (w.state.parts.get? (x.1.uploadId, part.partNumber))
  refine .inr ⟨upload, a, f, _, hu, not_ne_iff.mp hopen, hcovers, ha₀,
    not_ne_iff.mp hpending, ?_, hf, ?_, rfl, hs'⟩
  · simp [modifyUpload, publish, retire_uploads]
  · simp [modifyUpload, publish, retire_parts]

theorem lastCommit?_commit {pending : PendingPart} {parts : List MultipartPart}
    (hok : (commitPart env w.state identity pending part).1 = .ok parts) :
    (w.history.next quotas env (.commitPart identity pending part)).lastCommit? pk =
      if (identity.uploadId, part.partNumber) = pk then some part
      else w.history.lastCommit? pk := by
  have hok' : (commitPart env w.history.state identity pending part).1 = .ok parts := hok
  simp only [History.lastCommit?, History.next, findSome?_cons, Entry.commits?, Call.run,
    Outcome.reply, hok', Except.map]
  split
  next he =>
    split at he
    next hpk =>
      cases he
      rw [if_pos hpk]
    · cases he
  next he =>
  split at he
  · cases he
  next hpk => rw [if_neg hpk]

theorem Durable.commitPart (hD : Durable w) (hB : Balanced quotas w.history.begun w.state)
    (hknown : ∀ id u, w.state.uploads.get? id = some u → id ∈ w.history.created)
    (hx : x ∈ w.history.begun) (hsent : x.2.artifactKey ∈ w.uploaded)
    (hsafe : SafeCommit w (some (.call env (.commitPart x.1 x.2 part)))) :
    Durable { w with history := w.history.next quotas env (.commitPart x.1 x.2 part) } := by
  obtain ⟨e, he⟩ | ⟨u, a, f, s', hu, hopen, hcovers, ha, hpending, hup, hf, hparts, hatt, he⟩ :=
    commitPart_cases hB hx hsafe
  · have hrun : (w.history.next quotas env (.commitPart x.1 x.2 part)).state = w.state :=
      congrArg Prod.snd he
    refine hD.next (.of_none rfl) (fun pk => ?_) ?_
    · simp only [Call.entry, Entry.commits?, Call.run, Outcome.reply, he, Except.map]
    · rw [hrun]
      exact .of_eq rfl rfl
  have hs' : (w.history.next quotas env (.commitPart x.1 x.2 part)).state = s' :=
    congrArg Prod.snd he
  have hlast (pk : String × Nat) :
      (w.history.next quotas env (.commitPart x.1 x.2 part)).lastCommit? pk =
        if (x.1.uploadId, part.partNumber) = pk then some part
        else w.history.lastCommit? pk :=
    lastCommit?_commit (congrArg Prod.fst he)
  simp only [PendingPart.covers, Bool.and_eq_true, beq_iff_eq] at hcovers
  obtain ⟨⟨⟨⟨hid, -⟩, -⟩, hkey⟩, -⟩ := hcovers
  have hpid : part.uploadId = x.1.uploadId := hid.trans (hB.tickets.named x hx)
  -- an upload is open after the call exactly if it was before
  have hback {id : String} (h : s'.HasOpen id) : w.state.HasOpen id := by
    obtain ⟨v', hv', ho⟩ := h
    rw [hup] at hv'
    obtain ⟨rfl, v, hv, rfl⟩ | ⟨-, hv'⟩ := get?_modify_cases hv'
    · exact ⟨v, hv, (hf v) ▸ ho⟩
    · exact ⟨v', hv', ho⟩
  have hget (pk : String × Nat) (q : MultipartPart) (h : s'.parts.get? pk = some q) :
      (pk = (x.1.uploadId, part.partNumber) ∧ q = part) ∨
        pk ≠ (x.1.uploadId, part.partNumber) ∧ w.state.parts.get? pk = some q := by
    rw [hparts, get?_insert] at h
    split at h
    next hpk =>
      cases h
      exact .inl ⟨hpk, rfl⟩
    next hpk => exact .inr ⟨hpk, h⟩
  constructor
  case latest =>
    intro pk q hq ho
    simp only [hlast] at hq
    simp only [World.state, hs'] at ho ⊢
    rw [hparts, get?_insert]
    split at hq
    next hpk => rw [if_pos hpk.symm, hq]
    next hpk =>
    rw [if_neg (Ne.symm hpk)]
    exact hD.latest pk q hq (hback ho)
  case spoken =>
    intro pk q hq
    simp only [hlast] at hq
    split at hq
    next hpk =>
      rw [← hpk]
      exact History.mem_created_next (hknown _ u hu)
    · exact History.mem_created_next (hD.spoken pk q hq)
  case placed =>
    intro pk q hq
    simp only [World.state, hs'] at hq
    obtain ⟨rfl, rfl⟩ | ⟨-, hq⟩ := hget pk q hq
    · exact ⟨by rw [hpid], History.mem_created_next (hknown _ u hu), hkey ▸ hsent⟩
    · obtain ⟨hpk, hid, hkey⟩ := hD.placed pk q hq
      exact ⟨hpk, History.mem_created_next hid, hkey⟩
  case current =>
    intro pk q hq ho
    simp only [World.state, hs'] at hq ho ⊢
    -- the previous part of the number is current, so its attempt is no other part's
    have hprevious (old : MultipartPart)
        (hp : w.state.parts.get? (x.1.uploadId, part.partNumber) = some old) :
        w.state.attempts.get? old.artifactKey = some ⟨old, 0, .current⟩ :=
      hD.current _ old hp ⟨u, hu, hopen⟩
    rw [hatt, get?_modify, hkey]
    obtain ⟨rfl, rfl⟩ | ⟨hne, hq⟩ := hget pk q hq
    · rw [if_pos hkey, get?_retire_ne, ha, Option.map_some]
      intro old hp he
      rw [he, hprevious old hp] at ha
      cases ha
      cases hpending
    · have hcur := hD.current pk q hq (hback ho)
      have hkeys : q.artifactKey ≠ x.2.artifactKey := by
        intro h
        rw [h, ha] at hcur
        cases hcur
        cases hpending
      rw [if_neg hkeys, get?_retire_ne, hcur]
      intro old hp h
      rw [h, hprevious old hp] at hcur
      cases hcur
      exact hne ((hD.placed pk q hq).1.trans (hD.placed _ q hp).1.symm)
  case unlisted =>
    intro pk q hq ho
    simp only [World.state, hs'] at hq ho
    obtain ⟨rfl, rfl⟩ | ⟨-, hq⟩ := hget pk q hq
    · rw [hkey]
      exact hsafe.1
    · exact hD.unlisted pk q hq (hback ho)
  case kept =>
    intro pk q hq ho
    simp only [World.state, hs'] at hq ho
    obtain ⟨rfl, rfl⟩ | ⟨-, hq⟩ := hget pk q hq
    · obtain ⟨-, hstore⟩ | ⟨hnone, -⟩ := hsafe.2
      · rwa [hkey]
      · exact absurd ⟨a, ha, hpending⟩ hnone
    · exact hD.kept pk q hq (hback ho)
  case sent =>
    intro key hk
    obtain ⟨y, hy, h⟩ := hD.sent key hk
    exact ⟨y, History.mem_begun_next hy, h⟩

/-! ### Whole runs -/

theorem Durable.init : Durable World.new where
  latest _ _ h := by cases h
  spoken _ _ h := by cases h
  placed _ _ h := by simp [World.new, World.state, History.new, new] at h
  current _ _ h := by simp [World.new, World.state, History.new, new] at h
  unlisted _ _ h := by simp [World.new, World.state, History.new, new] at h
  kept _ _ h := by simp [World.new, World.state, History.new, new] at h
  sent _ h := by cases h

theorem Durable.rehash (hD : Durable w) (hs : SameContents w.state s) :
    Durable { w with history := ⟨s, w.history.log⟩ } := by
  have hup := fun k => (hs.uploads.get?_eq k).symm
  have hat := fun k => (hs.attempts.get?_eq k).symm
  have hpa := fun k => (hs.parts.get?_eq k).symm
  constructor
  case latest =>
    simp only [World.state, HasOpen, hup, hpa]
    exact hD.latest
  case spoken => exact hD.spoken
  case placed =>
    simp only [World.state, hpa]
    exact hD.placed
  case current =>
    simp only [World.state, HasOpen, hup, hpa, hat]
    exact hD.current
  case unlisted =>
    simp only [World.state, HasOpen, hup, hpa]
    exact hD.unlisted
  case kept =>
    simp only [World.state, HasOpen, hup, hpa]
    exact hD.kept
  case sent => exact hD.sent

/-- The calls that touch neither attempts nor parts. -/
def Call.touchesParts : Call → Bool
  | .replacePart _ _ | .beginPart _ _ _ _ | .commitPart _ _ _ | .discardPending _ _
  | .confirmArtifactDeleted _ | .abort _ _ | .reapExpired _ _ => true
  | _ => false

theorem Call.run_same_parts (hc : c.touchesParts = false) :
    (c.run quotas env s).2.attempts = s.attempts ∧ (c.run quotas env s).2.parts = s.parts := by
  cases c with
  | create | acquireCompletion | renewCompletion | checkCompletionLease | completeCompletion
  | deleteTerminalUpload =>
    simp only [Call.run, Outcome.reply, Staging.create, Staging.acquireCompletion,
      Staging.renewCompletion, Staging.checkCompletionLease, Staging.completeCompletion,
      Staging.deleteTerminalUpload]
    repeat' split
    all_goals exact ⟨rfl, rfl⟩
  | getAuthorized | listParts =>
    simp only [Call.run, Outcome.reply, Staging.getAuthorized, Staging.listParts]
    split <;> exact ⟨rfl, rfl⟩
  | cleanupCandidates => exact ⟨rfl, rfl⟩
  | knownArtifactKeys => exact ⟨rfl, rfl⟩
  | retireTerminalUploads => exact ⟨rfl, rfl⟩
  | _ => cases hc

theorem Durable.call (hD : Durable w) (hB : Balanced quotas w.history.begun w.state)
    (hF : Fencing w.history) (ho : Orderly w.history (.call env c)) (hc : w.clientCall c = true)
    (hsafe : SafeCommit w (some (.call env c))) :
    Durable { w with history := w.history.next quotas env c } := by
  by_cases htouch : c.touchesParts = false
  · obtain ⟨hatt, hparts⟩ : (c.run quotas env w.state).2.attempts = w.state.attempts ∧
        (c.run quotas env w.state).2.parts = w.state.parts := Call.run_same_parts htouch
    refine hD.next ho.uploads (fun pk => ?_) (.of_eq hatt hparts)
    cases c with
    | commitPart => cases htouch
    | _ => rfl
  cases c with
  | replacePart => cases ho.parts
  | beginPart =>
    exact hD.next ho.uploads (fun _ => rfl) (beginPart_gentle hD (ho.keys _ rfl))
  | commitPart identity pending =>
    have hx := ho.tickets (identity, pending) rfl
    have hsent : pending.artifactKey ∈ w.uploaded := by simpa [World.clientCall] using hc
    exact Durable.commitPart (x := (identity, pending)) hD hB hF.known hx hsent hsafe
  | discardPending identity pending =>
    refine hD.next ho.uploads (fun _ => rfl) (confirmArtifactDeleted_gentle ?_)
    have hunsent : pending.artifactKey ∉ w.uploaded := by simpa [World.clientCall] using hc
    intro pk part hp _ he
    exact hunsent (he ▸ (hD.placed pk part hp).2.2)
  | confirmArtifactDeleted => cases hc
  | abort => exact hD.next ho.uploads (fun _ => rfl) abort_gentle
  | reapExpired =>
    exact hD.next ho.uploads (fun _ => rfl) (reapExpired_gentle hB.accounts)
  | _ => exact absurd rfl htouch

theorem Durable.confirm {i : Nat} (hD : Durable w)
    (hB : Balanced quotas w.history.begun w.state) : Durable (w.confirm quotas i env) := by
  rw [World.confirm]
  split
  · exact hD
  next key hkey =>
  have hok : (confirmArtifactDeleted env w.state key).1 = .ok () :=
    (hB.accounts.confirmArtifactDeleted env key hB.tickets).1
  have hD' : Durable
      { w with history := w.history.next quotas env (.confirmArtifactDeleted key) } := by
    refine hD.next (.of_none rfl) (fun _ => rfl) (confirmArtifactDeleted_gentle ?_)
    rintro pk part hp hopen rfl
    exact hD.unlisted pk part hp hopen i (.inr hkey)
  rw [hok]
  refine Durable.setWorker (i := i) hD' ?_
  rintro pk part hp hopen (h | h)
  · exact hD'.unlisted pk part hp hopen i (.inl h)
  · cases h

theorem durable_of_reach
    (r : Reach World.Init (Guarded (WorldStep quotas) SafeCommit) w) : Durable w := by
  refine r.invariant ?_ ?_
  · rintro _ rfl
    exact .init
  · rintro w act w' r hD ⟨hstep, hsafe⟩
    have hr := World.reach_history r
    have hB := balanced_of_reach hr
    cases hstep with
    | @act a h =>
      cases a with
      | call =>
        have hF := fencing_of_reach (hr.mono fun _ _ _ hs => ⟨hs.1, hs.2.uploads⟩)
        exact hD.call hB hF h.1 h.2 hsafe
      | put =>
        obtain ⟨x, hx, rfl⟩ := mem_map.mp h
        exact hD.put hx
      | list => exact hD.list
      | delete => exact hD.delete
      | confirm => exact hD.confirm hB
    | rehash hs => exact hD.rehash hs

/-- A listing with room for all parts contains every part of the upload above the marker. -/
theorem mem_listParts {upload : MultipartUpload} {marker : Nat}
    (hu : s.authorized identity = some upload) (hp : s.parts.get? pk = some part)
    (hid : part.uploadId = identity.uploadId) (hmarker : marker < part.partNumber)
    (hlimit : s.parts.size ≤ limit) :
    ∃ parts truncated, (listParts s identity marker limit).1 = .ok (parts, truncated) ∧
      part ∈ parts := by
  rw [listParts, hu]
  refine ⟨_, _, rfl, ?_⟩
  rw [take_of_length_le]
  · rw [mem_insertionSort]
    refine mem_filter.mpr ⟨mem_values_iff.mpr ⟨pk, hp⟩, ?_⟩
    simp [hid, hmarker]
  · rw [length_insertionSort]
    refine (length_filter_le _ _).trans ?_
    rw [values, length_map]
    exact hlimit

/-- **Acknowledged parts are durable.**  In every run all of whose commits are safe, the last
acknowledged part of a number of an upload that is still open is in every listing that reaches it,
and its artifact is in the store. -/
theorem acknowledged_part_durable {pk : String × Nat} {part : MultipartPart}
    {upload : MultipartUpload} (r : Reach World.Init (Guarded (WorldStep quotas) SafeCommit) w)
    (hp : w.history.lastCommit? pk = some part)
    (hu : w.state.uploads.get? pk.1 = some upload) (hopen : upload.lifecycle = .open) :
    part.artifactKey ∈ w.store ∧
      ∀ marker limit, marker < part.partNumber → w.state.parts.size ≤ limit →
        ∃ parts truncated,
          (listParts w.state upload.identity marker limit).1 = .ok (parts, truncated) ∧
            part ∈ parts := by
  have hD := durable_of_reach r
  have hA := (balanced_of_reach (World.reach_history r)).accounts
  have hpart := hD.latest pk part hp ⟨upload, hu, hopen⟩
  obtain ⟨hpk, -, hsent⟩ := hD.placed pk part hpart
  have hkeyed := hA.keyed pk.1 upload hu
  refine ⟨?_, ?_⟩
  · exact hD.kept pk part hpart ⟨upload, hu, hopen⟩
  · intro marker limit hmarker hlimit
    have hauth : w.state.authorized upload.identity = some upload := by
      rw [authorized, hkeyed, hu]
      simp [sameIdentity]
    refine mem_listParts hauth hpart ?_ hmarker hlimit
    rw [hkeyed, hpk]

end Calls

/-! ### Concrete runs -/

def World.runActs (quotas : StagingQuotaLimits) (w : World) (acts : List Act) : World :=
  acts.foldl (World.perform quotas) w

theorem World.reach_runActs {quotas : StagingQuotaLimits}
    {w : World} {acts : List Act} (r : Reach World.Init (Guarded (WorldStep quotas) C) w)
    (h : plays (World.perform quotas) (fun w a => w.Allows a) w acts = true)
    (hC : ∀ a ∈ acts, ∀ w, C w (some a)) :
    Reach World.Init (Guarded (WorldStep quotas) C) (w.runActs quotas acts) :=
  r.script h fun w a ha hx => ⟨_, .act (of_decide_eq_true hx), hC a ha w⟩

/-- The first part is begun and uploaded. -/
def uploadActs : List Act :=
  [.call ⟨0, ""⟩ (.create sampleUpload), .call ⟨5, "a"⟩ (.beginPart sampleIdentity 1 40 5),
    .put samplePending]

/-- The client commits the part. -/
def commitAct (now : Int) : Act :=
  .call ⟨now, ""⟩ (.commitPart sampleIdentity samplePending samplePart)

/-- A second part is uploaded and left; a worker takes it up twice, since its first deletion fails.
-/
def workerActs : List Act :=
  [.call ⟨20, "b"⟩ (.beginPart sampleIdentity 2 10 20), .put (.make sampleIdentity 2 1 10 "b"),
    .list 0 300020, .delete 0 false true, .list 0 300030, .delete 0 true false,
    .confirm 0 ⟨300040, ""⟩]

def committedWorld : World :=
  ((World.new.runActs sampleQuotas uploadActs).perform sampleQuotas (commitAct 10)).runActs
    sampleQuotas workerActs

theorem committed_part_durable :
    samplePart.artifactKey ∈ committedWorld.store ∧
      ∃ parts truncated, (listParts committedWorld.state sampleIdentity 0 1).1 =
        .ok (parts, truncated) ∧ samplePart ∈ parts := by
  have hguard : Reach World.Init (Guarded (WorldStep sampleQuotas) SafeCommit)
      (World.new.runActs sampleQuotas uploadActs) := by
    refine World.reach_runActs (.init rfl) (by decide +kernel) fun a ha w => ?_
    simp only [uploadActs, mem_cons, not_mem_nil, or_false] at ha
    obtain rfl | rfl | rfl := ha <;> exact trivial
  have hcommit : Reach World.Init (Guarded (WorldStep sampleQuotas) SafeCommit)
      ((World.new.runActs sampleQuotas uploadActs).perform sampleQuotas (commitAct 10)) := by
    refine .step hguard ⟨.act (by decide +kernel), fun i hi => ?_, .inl ⟨⟨_, rfl, rfl⟩, ?_⟩⟩
    · obtain ⟨c, hc, -⟩ | h := hi
      · cases hc
      · cases h
    · decide +kernel
  have r : Reach World.Init (Guarded (WorldStep sampleQuotas) SafeCommit) committedWorld := by
    refine World.reach_runActs hcommit (by decide +kernel) fun a ha w => ?_
    simp only [workerActs, mem_cons, not_mem_nil, or_false] at ha
    obtain rfl | rfl | rfl | rfl | rfl | rfl | rfl := ha <;> exact trivial
  have hu : committedWorld.state.uploads.get? "upload" =
      some { sampleUpload with stagedBytes := 30, updatedAtMs := 300040 } := by
    decide +kernel
  have hlast : committedWorld.history.lastCommit? ("upload", 1) = some samplePart := by
    decide +kernel
  obtain ⟨hstore, hlist⟩ := acknowledged_part_durable r hlast hu rfl
  exact ⟨hstore, hlist 0 1 (by decide) (by decide +kernel)⟩

/-- A worker lists the attempt when it is five minutes old; the client commits it; and the worker
goes on with its list. -/
def lossActs : List Act :=
  uploadActs ++ [.list 0 300010, commitAct 300015, .delete 0 true true, .confirm 0 ⟨300020, ""⟩]

def lossWorld : World := World.new.runActs sampleQuotas lossActs

/-- The commit was acknowledged and the upload is open, but the artifact is gone and the part with
it. -/
theorem listed_attempt_is_lost :
    Reach World.Init (WorldStep sampleQuotas) lossWorld ∧
      lossWorld.history.lastCommit? ("upload", 1) = some samplePart ∧
      (lossWorld.state.uploads.get? "upload").map (·.lifecycle) = some .open ∧
      samplePart.artifactKey ∉ lossWorld.store ∧
      (listParts lossWorld.state sampleIdentity 0 1000).1 = .ok ([], false) := by
  refine ⟨Reach.of_guarded (C := fun _ _ => True) ?_, by decide +kernel⟩
  exact World.reach_runActs (.init rfl) (by decide +kernel) fun _ _ _ => trivial

end S4.Staging
