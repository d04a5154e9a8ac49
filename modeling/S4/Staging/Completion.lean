import S4.Staging.Calls

/-!
# Staging — Completion fencing

What a call can do to one upload's completion is said once, as `Fate`: the upload is gone, or it has
advanced, and an advance carries the completion event, if any, that the caller was told about.  The
results are about the events of one upload in the order in which the log records them.
-/

namespace S4.Staging

open Lib List MemoryState

variable {u u' upload : MultipartUpload} {event : Option CompletionEvent}
  {fingerprint id k : String} {now leaseExpiresAtMs : Int} {result : MultipartCompletionResult}
  {c : Call} {e : CompletionEvent} {before : Option MultipartUpload}
  {f : MultipartUpload → MultipartUpload} {s' : MemoryState} {token limit fencingToken : Nat}
  {identity : MultipartIdentity} {part : MultipartPart} {s : MemoryState} {now : Int}

/-! ### Events -/

/-- What a caller is told about the completion of an upload. -/
inductive CompletionEvent where
  /-- `acquire_completion` returned `Acquired` -/
  | acquired (fingerprint : String) (token : Nat)
  /-- `renew_completion` or `check_completion_lease` succeeded -/
  | held (token : Nat)
  /-- `complete_completion` succeeded -/
  | completed (token : Nat) (result : MultipartCompletionResult)
  /-- `acquire_completion` returned `Replayed` -/
  | replayed (fingerprint : String) (result : MultipartCompletionResult)
deriving DecidableEq

/-- The completion event of an entry, with the upload it is about. -/
def Entry.completion? (e : Entry) : Option (String × CompletionEvent) :=
  match e.call, e.answer with
  | .acquireCompletion identity fingerprint _ _ _ _, .ok (.acquire (.acquired lease)) =>
    some (identity.uploadId, .acquired fingerprint lease.fencingToken)
  | .acquireCompletion identity fingerprint _ _ _ _, .ok (.acquire (.replayed result)) =>
    some (identity.uploadId, .replayed fingerprint result)
  | .renewCompletion identity token _, .ok _ => some (identity.uploadId, .held token)
  | .checkCompletionLease identity token _, .ok _ => some (identity.uploadId, .held token)
  | .completeCompletion identity token result _, .ok _ =>
    some (identity.uploadId, .completed token result)
  | _, _ => none

/-- The event of an entry, if it is about the given upload. -/
def Entry.event? (id : String) (e : Entry) : Option CompletionEvent :=
  match e.completion? with
  | some (uploadId, event) => if uploadId = id then some event else none
  | none => none

/-- The completion events of an upload, newest first. -/
def History.events (h : History) (id : String) : List CompletionEvent :=
  h.log.filterMap (Entry.event? id)

/-! ### Advances -/

/-- The moves of the lifecycle. -/
inductive LifecycleMove : MultipartLifecycle → MultipartLifecycle → Prop where
  | stay (l : MultipartLifecycle) : LifecycleMove l l
  | acquire : LifecycleMove .open .completing
  | abort : LifecycleMove .open .aborted
  | expire : LifecycleMove .open .expired
  | complete : LifecycleMove .completing .completed

/-- The completion of the upload is where it was. -/
structure SameCompletion (u u' : MultipartUpload) : Prop where
  lifecycle : u'.lifecycle = u.lifecycle
  fingerprint : u'.completeRequestFingerprint = u.completeRequestFingerprint
  token : u'.completionFencingToken = u.completionFencingToken
  result : u'.completionResult = u.completionResult

/-- How one call moves the completion of an upload, and what it tells its caller. -/
inductive Advance : MultipartUpload → Option CompletionEvent → MultipartUpload → Prop where
  | keep {u u' : MultipartUpload} (h : SameCompletion u u') : Advance u none u'
  | hold {u u' : MultipartUpload} (hu : u.lifecycle = .completing) (h : SameCompletion u u') :
      Advance u (some (.held u.completionFencingToken)) u'
  | replay {u : MultipartUpload} {fingerprint : String} {result : MultipartCompletionResult}
      (hu : u.lifecycle = .completed) (hf : u.completeRequestFingerprint = some fingerprint)
      (hr : u.completionResult = some result) :
      Advance u (some (.replayed fingerprint result)) u
  | acquire {u u' : MultipartUpload} {fingerprint : String}
      (hu : u.lifecycle = .open ∨
        u.lifecycle = .completing ∧ u.completeRequestFingerprint = some fingerprint)
      (hl : u'.lifecycle = .completing) (hf : u'.completeRequestFingerprint = some fingerprint)
      (ht : u'.completionFencingToken = u.completionFencingToken + 1) :
      Advance u (some (.acquired fingerprint (u.completionFencingToken + 1))) u'
  | complete {u u' : MultipartUpload} {result : MultipartCompletionResult}
      (hu : u.lifecycle = .completing) (hl : u'.lifecycle = .completed)
      (hf : u'.completeRequestFingerprint = u.completeRequestFingerprint)
      (ht : u'.completionFencingToken = u.completionFencingToken)
      (hr : u'.completionResult = some result) :
      Advance u (some (.completed u.completionFencingToken result)) u'
  | finish {u u' : MultipartUpload} (hu : u.lifecycle = .open)
      (hl : u'.lifecycle = .aborted ∨ u'.lifecycle = .expired)
      (ht : u'.completionFencingToken = u.completionFencingToken) : Advance u none u'

theorem Advance.lifecycleMove
    (h : Advance u event u') : LifecycleMove u.lifecycle u'.lifecycle := by
  cases h with
  | keep h => rw [h.lifecycle]; exact .stay _
  | hold _ h => rw [h.lifecycle]; exact .stay _
  | replay => exact .stay _
  | acquire hu hl =>
    rw [hl]
    obtain hu | ⟨hu, _⟩ := hu
    · rw [hu]; exact .acquire
    · rw [hu]; exact .stay _
  | complete hu hl => rw [hu, hl]; exact .complete
  | finish hu hl =>
    rw [hu]
    obtain hl | hl := hl
    · rw [hl]; exact .abort
    · rw [hl]; exact .expire

theorem Advance.token_le
    (h : Advance u event u') : u.completionFencingToken ≤ u'.completionFencingToken := by
  cases h with
  | keep h => exact h.token.ge
  | hold _ h => exact h.token.ge
  | replay => exact le_rfl
  | acquire => omega
  | complete _ _ _ ht => exact ht.ge
  | finish _ _ ht => exact ht.ge

/-- What a call other than `create` does to the upload under an id: nothing is there afterwards, or
the upload has advanced. -/
inductive Fate : Option MultipartUpload → Option CompletionEvent → Option MultipartUpload →
    Prop where
  | gone (before : Option MultipartUpload) : Fate before none none
  | advance {u u' : MultipartUpload} {event : Option CompletionEvent} (h : Advance u event u') :
      Fate (some u) event (some u')

theorem Fate.of_after (h : Fate before event (some u')) :
    ∃ u, before = some u ∧ Advance u event u' := by
  cases h with
  | advance h => exact ⟨_, rfl, h⟩

theorem Fate.of_event {after : Option MultipartUpload} {event : CompletionEvent}
    (h : Fate before (some event) after) : ∃ u u', before = some u ∧ Advance u (some event) u' := by
  cases h with
  | advance h => exact ⟨_, _, rfl, h⟩

theorem Fate.same (o : Option MultipartUpload) : Fate o none o := by
  cases o with
  | none => exact .gone _
  | some => exact .advance (.keep ⟨rfl, rfl, rfl, rfl⟩)

/-- An upload that is changed in place advances, and the others stay. -/
theorem Fate.modify (hu : s.uploads.get? k = some u)
    (h : Advance u event (f u)) (id : String) :
    Fate (s.uploads.get? id) (if k = id then event else none)
      ((s.uploads.modify k f).get? id) := by
  rw [KeyMap.get?_modify]
  by_cases hk : id = k
  · subst hk
    rw [if_pos rfl, if_pos rfl, hu]
    exact .advance h
  · rw [if_neg hk, if_neg (Ne.symm hk)]
    exact .same _

/-! ### The calls that tell nothing about a completion -/

/-- No upload is created, and no caller is told about a completion. -/
def Quiet (s s' : MemoryState) : Prop :=
  ∀ id, Fate (s.uploads.get? id) none (s'.uploads.get? id)

theorem Quiet.refl (s : MemoryState) : Quiet s s := fun _ => .same _

theorem quiet_modify (hs : s'.uploads = s.uploads.modify k f)
    (hf : ∀ u, s.uploads.get? k = some u → Advance u none (f u)) : Quiet s s' := by
  intro id
  rw [hs, KeyMap.get?_modify]
  by_cases hk : id = k
  · subst hk
    rw [if_pos rfl]
    cases hu : s.uploads.get? id with
    | none => exact .gone _
    | some u => exact .advance (hf u hu)
  · rw [if_neg hk]
    exact .same _

theorem replacePart_quiet {env : CallEnv} :
    Quiet s (replacePart env s identity part).2 := by
  simp only [replacePart]
  repeat' split
  all_goals try exact .refl s
  exact quiet_modify rfl fun u _ => .keep ⟨rfl, rfl, rfl, rfl⟩

theorem beginPart_quiet {quotas : StagingQuotaLimits} {env : CallEnv}
    {partNumber reservedBytes : Nat} :
    Quiet s (beginPart quotas env s identity partNumber reservedBytes now).2 := by
  simp only [beginPart]
  repeat' split
  all_goals try exact .refl s
  exact quiet_modify rfl fun u _ => .keep ⟨rfl, rfl, rfl, rfl⟩

theorem MemoryState.retire_uploads (s : MemoryState) (previous : Option MultipartPart) :
    (s.retire previous).uploads = s.uploads := by
  cases previous <;> rfl

theorem MemoryState.retire_parts (s : MemoryState) (previous : Option MultipartPart) :
    (s.retire previous).parts = s.parts := by
  cases previous <;> rfl

theorem commitPart_quiet {env : CallEnv} {pending : PendingPart} :
    Quiet s (commitPart env s identity pending part).2 := by
  have hretire (previous : Option MultipartPart) : Quiet s (s.retire previous) := by
    intro id
    rw [s.retire_uploads]
    exact .same _
  have hmodify (previous : Option MultipartPart) {s' : MemoryState}
      {f : MultipartUpload → MultipartUpload}
      (hs : s'.uploads = (s.retire previous).uploads.modify identity.uploadId f)
      (hf : ∀ u, SameCompletion u (f u)) : Quiet s s' := by
    rw [s.retire_uploads] at hs
    exact quiet_modify hs fun u _ => .keep (hf u)
  simp only [commitPart, settle]
  repeat' split
  · exact .refl s
  · exact .refl s
  · exact .refl s
  · exact hretire _
  · exact hretire _
  · exact hretire _
  · exact hmodify _ rfl fun u => ⟨rfl, rfl, rfl, rfl⟩
  · exact hmodify _ rfl fun u => ⟨rfl, rfl, rfl, rfl⟩

theorem confirmArtifactDeleted_quiet (env : CallEnv) (s : MemoryState) (artifactKey : String) :
    Quiet s (confirmArtifactDeleted env s artifactKey).2 := by
  simp only [confirmArtifactDeleted, release]
  repeat' split
  all_goals try exact .refl s
  · exact quiet_modify rfl fun u _ => .keep ⟨rfl, rfl, rfl, rfl⟩
  · exact quiet_modify rfl fun u _ => .keep ⟨rfl, rfl, rfl, rfl⟩

theorem abort_quiet : Quiet s (abort s identity now).2 := by
  rw [abort]
  split
  · exact .refl s
  next upload hupload =>
  split
  · split <;> exact .refl s
  next hopen =>
  refine quiet_modify rfl fun u hu => ?_
  rw [(authorized_eq_some hupload).1] at hu
  cases hu
  exact .finish (not_ne_iff.mp hopen) (.inl rfl) rfl

theorem quiet_erase
    (h : ∀ id, s'.uploads.get? id = none ∨ s'.uploads.get? id = s.uploads.get? id) :
    Quiet s s' := by
  intro id
  obtain h | h := h id
  · rw [h]
    exact .gone _
  · rw [h]
    exact .same _

theorem deleteTerminalUpload_quiet :
    Quiet s (deleteTerminalUpload s identity).2 := by
  rw [deleteTerminalUpload]
  split
  · exact .refl s
  split
  · exact .refl s
  refine quiet_erase fun id => ?_
  simp only [KeyMap.get?_erase]
  split
  · exact .inl rfl
  · exact .inr rfl

theorem get?_removeUploads (uploads : KeyMap String MultipartUpload) (ids : List String)
    (id : String) :
    (removeUploads uploads ids).2.get? id = if id ∈ ids then none else uploads.get? id := by
  induction ids generalizing uploads with
  | nil => rfl
  | cons k rest ih =>
    rw [removeUploads]
    split
    next hk =>
      rw [ih]
      by_cases h : id = k
      · subst h
        simp [hk]
      · simp [h]
    next upload hk =>
    simp only [ih, KeyMap.get?_erase]
    by_cases h : id = k
    · subst h
      simp
    · simp [h]

theorem retireTerminalUploads_quiet :
    Quiet s (retireTerminalUploads s now limit).2 := by
  refine quiet_erase fun id => ?_
  simp only [retireTerminalUploads, get?_removeUploads]
  split
  · exact .inl rfl
  · exact .inr rfl

theorem open_of_mem_expiredUploads (hu : s.uploads.get? id = some u)
    (h : id ∈ (s.expiredUploads now limit).map Prod.fst) : u.lifecycle = .open := by
  obtain ⟨e, he, rfl⟩ := mem_map.mp h
  obtain ⟨hmem, hopen⟩ := mem_filter.mp (mem_of_mem_take he)
  rw [KeyMap.mem_toList_iff.mp hmem] at hu
  cases hu
  simp only [Bool.and_eq_true, beq_iff_eq] at hopen
  exact hopen.1

theorem reapExpired_quiet : Quiet s (reapExpired s now limit).2 := by
  intro id
  simp only [reapExpired, extractParts, KeyMap.get?_mapValues]
  cases hu : s.uploads.get? id with
  | none => exact .gone _
  | some =>
    by_cases hid : id ∈ (s.expiredUploads now limit).map Prod.fst
    · simp only [Option.map_some, if_pos hid]
      exact .advance (.finish (open_of_mem_expiredUploads hu hid) (.inr rfl) rfl)
    · simp only [Option.map_some, if_neg hid]
      exact .same _

/-! ### The calls that do -/

theorem acquireGate_none (h : acquireGate upload fingerprint now = none) :
    upload.lifecycle = .open ∨
      upload.lifecycle = .completing ∧ upload.completeRequestFingerprint = some fingerprint := by
  rw [acquireGate] at h
  split at h
  · repeat' split at h
    all_goals cases h
  · cases h
  · cases h
  next hl =>
    split at h
    · cases h
    next hf => exact .inr ⟨hl, not_ne_iff.mp hf⟩
  next hl => exact .inl hl

theorem acquireGate_replayed
    (h : acquireGate upload fingerprint now = some (.ok (.replayed result))) :
    upload.lifecycle = .completed ∧ upload.completeRequestFingerprint = some fingerprint ∧
      upload.completionResult = some result := by
  rw [acquireGate] at h
  split at h
  next hl =>
    split at h
    · cases h
    next hr =>
    split at h
    next hf =>
      cases h
      exact ⟨hl, hf, hr⟩
    · cases h
  · cases h
  · cases h
  · repeat' split at h
    all_goals cases h
  · split at h <;> cases h

theorem acquireGate_not_acquired {lease : CompletionLease} :
    acquireGate upload fingerprint now ≠ some (.ok (.acquired lease)) := by
  intro h
  rw [acquireGate] at h
  repeat' split at h
  all_goals cases h

theorem event?_of_completion? {e : Entry} {event : CompletionEvent}
    (h : e.completion? = some (k, event)) (id : String) :
    e.event? id = if k = id then some event else none := by
  simp only [Entry.event?, h]

theorem event?_of_quiet {e : Entry} (h : e.completion? = none) (id : String) :
    e.event? id = none := by
  simp only [Entry.event?, h]

section Fates

attribute [local simp] Call.run

variable (quotas : StagingQuotaLimits) (env : CallEnv) (s : MemoryState)

/-- The entry that a call leaves in the log. -/
def Call.entry (c : Call) : Entry := ⟨c, (c.run quotas env s).1⟩

/-- The call does to every upload what its entry says. -/
def Call.Fated (c : Call) : Prop :=
  ∀ id, Fate (s.uploads.get? id) ((c.entry quotas env s).event? id)
    ((c.run quotas env s).2.uploads.get? id)

variable {quotas env s}

theorem Call.Fated.of_quiet (he : (c.entry quotas env s).completion? = none)
    (h : Quiet s (c.run quotas env s).2) : c.Fated quotas env s := by
  intro id
  rw [event?_of_quiet he]
  exact h id

theorem acquireCompletion_fated {fingerprint : String}
    {parts : List CompletePart} {owner : String} :
    (Call.acquireCompletion identity fingerprint parts owner leaseExpiresAtMs now).Fated
      quotas env s := by
  intro id
  simp only [Call.entry, Call.run, Outcome.reply, acquireCompletion]
  split
  · exact .same _
  next upload hupload =>
  obtain ⟨hget, -⟩ := authorized_eq_some hupload
  split
  next answer hgate =>
    -- the upload alone decides: only a replay is an event
    cases answer with
    | error => exact .same _
    | ok answer =>
      cases answer with
      | acquired => exact absurd hgate acquireGate_not_acquired
      | busy => exact .same _
      | replayed =>
        obtain ⟨hl, hf, hr⟩ := acquireGate_replayed hgate
        rw [event?_of_completion? rfl]
        split
        next hid =>
          subst hid
          rw [hget]
          exact .advance (.replay hl hf hr)
        · exact .same _
  next hgate =>
  split
  · exact .same _
  split
  · exact .same _
  next token htoken =>
  obtain rfl := checkedAdd_eq_some htoken
  rw [event?_of_completion? rfl]
  exact Fate.modify hget (.acquire (acquireGate_none hgate) rfl rfl rfl) id

theorem renewCompletion_fated :
    (Call.renewCompletion identity fencingToken leaseExpiresAtMs).Fated quotas env s := by
  intro id
  simp only [Call.entry, Call.run, Outcome.reply, renewCompletion]
  split
  · exact .same _
  next upload hupload =>
  obtain ⟨hget, -⟩ := authorized_eq_some hupload
  split
  · exact .same _
  next hlease =>
  obtain ⟨hl, ht⟩ := not_or.mp hlease
  obtain rfl := not_ne_iff.mp ht
  rw [event?_of_completion? rfl]
  exact Fate.modify hget (.hold (not_ne_iff.mp hl) ⟨rfl, rfl, rfl, rfl⟩) id

theorem checkCompletionLease_fated :
    (Call.checkCompletionLease identity fencingToken now).Fated quotas env s := by
  intro id
  simp only [Call.entry, Call.run, Outcome.reply, checkCompletionLease]
  split
  · exact .same _
  next upload hupload =>
  obtain ⟨hget, -⟩ := authorized_eq_some hupload
  split
  next hlease =>
    obtain ⟨hl, rfl, -⟩ := hlease
    rw [event?_of_completion? rfl]
    split
    next hid =>
      subst hid
      rw [hget]
      exact .advance (.hold hl ⟨rfl, rfl, rfl, rfl⟩)
    · exact .same _
  · exact .same _

theorem completeCompletion_fated {result : MultipartCompletionResult} :
    (Call.completeCompletion identity fencingToken result now).Fated quotas env s := by
  intro id
  simp only [Call.entry, Call.run, Outcome.reply, completeCompletion]
  split
  · exact .same _
  next upload hupload =>
  obtain ⟨hget, -⟩ := authorized_eq_some hupload
  split
  · exact .same _
  next hlease =>
  obtain ⟨hl, ht⟩ := not_or.mp hlease
  obtain rfl := not_ne_iff.mp (not_or.mp ht).1
  rw [event?_of_completion? rfl]
  exact Fate.modify hget (.complete (not_ne_iff.mp hl) rfl rfl rfl rfl) id

/-- **What one call can do to the completion of an upload.** -/
theorem Call.fated (hc : ∀ upload, c ≠ .create upload) : c.Fated quotas env s := by
  cases c with
  | create upload => exact absurd rfl (hc upload)
  | getAuthorized | listParts =>
    refine .of_quiet rfl ?_
    simp only [Call.run, Outcome.reply, Staging.getAuthorized, Staging.listParts]
    split <;> exact .refl s
  | replacePart => exact .of_quiet rfl replacePart_quiet
  | beginPart =>
    exact .of_quiet rfl beginPart_quiet
  | commitPart =>
    exact .of_quiet rfl commitPart_quiet
  | discardPending identity pending =>
    exact .of_quiet rfl (confirmArtifactDeleted_quiet env s pending.artifactKey)
  | cleanupCandidates => exact .of_quiet rfl (.refl s)
  | confirmArtifactDeleted artifactKey =>
    exact .of_quiet rfl (confirmArtifactDeleted_quiet env s artifactKey)
  | knownArtifactKeys => exact .of_quiet rfl (.refl s)
  | acquireCompletion =>
    exact acquireCompletion_fated
  | renewCompletion =>
    exact renewCompletion_fated
  | checkCompletionLease =>
    exact checkCompletionLease_fated
  | completeCompletion =>
    exact completeCompletion_fated
  | abort => exact .of_quiet rfl abort_quiet
  | deleteTerminalUpload => exact .of_quiet rfl deleteTerminalUpload_quiet
  | retireTerminalUploads => exact .of_quiet rfl retireTerminalUploads_quiet
  | reapExpired => exact .of_quiet rfl reapExpired_quiet

end Fates

/-! ### The order of events -/

/-- What an event says about the upload from then on. -/
def CompletionEvent.Past (u : MultipartUpload) : CompletionEvent → Prop
  | .acquired fingerprint token =>
    (u.lifecycle = .completing ∨ u.lifecycle = .completed) ∧
      u.completeRequestFingerprint = some fingerprint ∧ token ≤ u.completionFencingToken
  | .held token =>
    (u.lifecycle = .completing ∨ u.lifecycle = .completed) ∧ token ≤ u.completionFencingToken
  | .completed token result =>
    u.lifecycle = .completed ∧ u.completionResult = some result ∧
      token ≤ u.completionFencingToken
  | .replayed fingerprint result =>
    u.lifecycle = .completed ∧ u.completeRequestFingerprint = some fingerprint ∧
      u.completionResult = some result

/-- What an event may be, after an earlier one of the same upload: tokens of acquisitions grow and
none is used after a later one was given out, every acquisition and every replay is for one
fingerprint, and after the completion there are only replays, of its result. -/
def CompletionEvent.Follows : CompletionEvent → CompletionEvent → Prop
  | .acquired fingerprint' token', .acquired fingerprint token =>
    fingerprint' = fingerprint ∧ token < token'
  | .held token', .acquired _ token                => token ≤ token'
  | .completed token' _, .acquired _ token         => token ≤ token'
  | .replayed fingerprint' _, .acquired fingerprint _ => fingerprint' = fingerprint
  | .acquired _ token', .held token                => token < token'
  | .held token', .held token                      => token ≤ token'
  | .completed token' _, .held token               => token ≤ token'
  | .replayed _ _, .held _                         => True
  | .replayed _ result', .completed _ result       => result' = result
  | .replayed fingerprint' result', .replayed fingerprint result =>
    fingerprint' = fingerprint ∧ result' = result
  | _, .completed _ _                              => False
  | _, .replayed _ _                               => False

theorem CompletionEvent.Past.mono (h : Advance u event u') (he : e.Past u) : e.Past u' := by
  have ht := h.token_le
  cases h with
  | keep h =>
    cases e <;> simp only [Past, h.lifecycle, h.fingerprint, h.token, h.result] at he ⊢ <;>
      exact he
  | hold _ h =>
    cases e <;> simp only [Past, h.lifecycle, h.fingerprint, h.token, h.result] at he ⊢ <;>
      exact he
  | replay => exact he
  | acquire =>
    cases e <;> grind [Past]
  | complete =>
    cases e <;> grind [Past]
  | finish =>
    -- an event leaves the upload `Completing` or `Completed`, never `Open`
    cases e <;> grind [Past]

theorem CompletionEvent.past_of_advance {event : CompletionEvent}
    (h : Advance u (some event) u') : event.Past u' := by
  cases h with
  | hold hu h => exact ⟨.inl (h.lifecycle.trans hu), h.token.ge⟩
  | replay hu hf hr => exact ⟨hu, hf, hr⟩
  | acquire _ hl hf ht => exact ⟨.inl hl, hf, ht.ge⟩
  | complete _ hl _ ht hr => exact ⟨hl, hr, ht.ge⟩

theorem CompletionEvent.follows_of_advance {event : CompletionEvent}
    (h : Advance u (some event) u') (he : e.Past u) : event.Follows e := by
  cases h with
  | hold | replay | acquire | complete => cases e <;> grind [Past, Follows]

/-! ### Whole histories -/

/-- The upload was created as a completed one, with this fingerprint and result. -/
def History.CreatedCompleted (h : History) (id fingerprint : String)
    (result : MultipartCompletionResult) : Prop :=
  ∃ e ∈ h.log, ∃ upload, e.call = .create upload ∧ upload.identity.uploadId = id ∧
    upload.lifecycle = .completed ∧ upload.completeRequestFingerprint = some fingerprint ∧
    upload.completionResult = some result

/-- The result was recorded: by a completion, or with the upload itself. -/
def History.Recorded (h : History) (id fingerprint : String)
    (result : MultipartCompletionResult) : Prop :=
  (∃ token, .completed token result ∈ h.events id) ∨ h.CreatedCompleted id fingerprint result

/-- The invariant: what the log says about the uploads that are there, and about its own order. -/
structure Fencing (h : History) : Prop where
  known : ∀ id u, h.state.uploads.get? id = some u → id ∈ h.created
  spoken : ∀ id, h.events id ≠ [] → id ∈ h.created
  past : ∀ id u, h.state.uploads.get? id = some u → ∀ e ∈ h.events id, e.Past u
  ordered : ∀ id, (h.events id).Pairwise CompletionEvent.Follows
  origin : ∀ id u fingerprint result, h.state.uploads.get? id = some u → u.lifecycle = .completed →
    u.completeRequestFingerprint = some fingerprint → u.completionResult = some result →
    h.Recorded id fingerprint result
  replays : ∀ id fingerprint result, .replayed fingerprint result ∈ h.events id →
    h.Recorded id fingerprint result

section Histories

variable {quotas : StagingQuotaLimits} {env : CallEnv} {h : History} {s : MemoryState}

theorem History.events_next (c : Call) (id : String) :
    (h.next quotas env c).events id =
      ((c.entry quotas env h.state).event? id).toList ++ h.events id := by
  simp only [History.events, History.next, filterMap_cons, Call.entry]
  split <;> simp_all

theorem History.mem_events_next (he : e ∈ h.events id) : e ∈ (h.next quotas env c).events id := by
  rw [History.events_next]
  exact mem_append_right _ he

theorem History.mem_created_next (hid : id ∈ h.created) : id ∈ (h.next quotas env c).created := by
  simp only [History.created, History.next, filterMap_cons]
  split
  · exact hid
  · exact mem_cons_of_mem _ hid

theorem History.Recorded.next (hr : h.Recorded id fingerprint result) :
    (h.next quotas env c).Recorded id fingerprint result := by
  obtain ⟨token, hr⟩ | ⟨e, he, hr⟩ := hr
  · exact .inl ⟨token, mem_events_next hr⟩
  · exact .inr ⟨e, mem_cons_of_mem _ he, hr⟩

/-- A completed upload after an advance was completed before, or is completed by it. -/
theorem Advance.recorded (h : Advance u event u')
    (hl : u'.lifecycle = .completed) (hf : u'.completeRequestFingerprint = some fingerprint)
    (hr : u'.completionResult = some result) :
    (∃ token, event = some (.completed token result)) ∨
      (u.lifecycle = .completed ∧ u.completeRequestFingerprint = some fingerprint ∧
        u.completionResult = some result) := by
  cases h with
  | keep h => exact .inr ⟨h.lifecycle ▸ hl, h.fingerprint ▸ hf, h.result ▸ hr⟩
  | hold _ h => exact .inr ⟨h.lifecycle ▸ hl, h.fingerprint ▸ hf, h.result ▸ hr⟩
  | replay => exact .inr ⟨hl, hf, hr⟩
  | acquire _ hl' => cases hl'.symm.trans hl
  | complete _ _ _ _ hr' =>
    cases hr'.symm.trans hr
    exact .inl ⟨_, rfl⟩
  | finish _ hl' =>
    rw [hl] at hl'
    obtain hl' | hl' := hl' <;> cases hl'

/-- The upload that is there after a call was there before it, and has advanced. -/
theorem Call.Fated.advance (hfate : c.Fated quotas env h.state)
    (hu' : (h.next quotas env c).state.uploads.get? id = some u') :
    ∃ u, h.state.uploads.get? id = some u ∧
      Advance u ((c.entry quotas env h.state).event? id) u' := by
  have hf := hfate id
  rw [show (c.run quotas env h.state).2.uploads.get? id = some u' from hu'] at hf
  exact hf.of_after

/-- An event of the log after a call is an older one, or tells of an advance. -/
theorem Call.Fated.of_mem_events (hfate : c.Fated quotas env h.state)
    (he : e ∈ (h.next quotas env c).events id) :
    e ∈ h.events id ∨ ∃ u u', h.state.uploads.get? id = some u ∧ Advance u (some e) u' := by
  rw [History.events_next] at he
  obtain he | he := mem_append.mp he
  · have hf := hfate id
    rw [Option.mem_toList.mp he] at hf
    exact .inr hf.of_event
  · exact .inl he

theorem Fencing.next_of_fated (hF : Fencing h)
    (hfate : c.Fated quotas env h.state) : Fencing (h.next quotas env c) where
  known id u' hu' := by
    obtain ⟨u, hu, -⟩ := hfate.advance hu'
    exact History.mem_created_next (hF.known id u hu)
  spoken id hne := by
    obtain ⟨e, he⟩ := exists_mem_of_ne_nil _ hne
    obtain he | ⟨u, -, hu, -⟩ := hfate.of_mem_events he
    · exact History.mem_created_next (hF.spoken id (ne_nil_of_mem he))
    · exact History.mem_created_next (hF.known id u hu)
  past id u' hu' e he := by
    obtain ⟨u, hu, ha⟩ := hfate.advance hu'
    rw [History.events_next] at he
    obtain he | he := mem_append.mp he
    · rw [Option.mem_toList.mp he] at ha
      exact CompletionEvent.past_of_advance ha
    · exact .mono ha (hF.past id u hu e he)
  ordered id := by
    have hf := hfate id
    rw [History.events_next]
    cases hev : (c.entry quotas env h.state).event? id with
    | none => exact hF.ordered id
    | some =>
      rw [hev] at hf
      obtain ⟨u, u', hu, ha⟩ := hf.of_event
      refine pairwise_cons.mpr ⟨fun e he => ?_, hF.ordered id⟩
      exact CompletionEvent.follows_of_advance ha (hF.past id u hu e he)
  origin id u' fingerprint result hu' hl hfp hr := by
    obtain ⟨u, hu, ha⟩ := hfate.advance hu'
    obtain ⟨token, hev⟩ | ⟨hl, hfp, hr⟩ := ha.recorded hl hfp hr
    · refine .inl ⟨token, ?_⟩
      rw [History.events_next, hev]
      exact mem_cons_self
    · exact (hF.origin id u _ _ hu hl hfp hr).next
  replays id fingerprint result he := by
    obtain he | ⟨u, u', hu, ha⟩ := hfate.of_mem_events he
    · exact (hF.replays id _ _ he).next
    · cases ha with
      | replay hl hfp hr => exact (hF.origin id u _ _ hu hl hfp hr).next

theorem create_cases (s : MemoryState) (upload : MultipartUpload) :
    (create s upload).2 = s ∨
      (create s upload).2 =
        { s with uploads := s.uploads.insert upload.identity.uploadId upload } := by
  simp only [create]
  split
  · exact .inl rfl
  · split <;> exact .inr rfl

/-- An upload that is there after `create` was there before, or is the new one. -/
theorem create_get? (hu : (h.next quotas env (.create upload)).state.uploads.get? id = some u) :
    h.state.uploads.get? id = some u ∨ id = upload.identity.uploadId ∧ u = upload := by
  have hu' : (create h.state upload).2.uploads.get? id = some u := hu
  obtain he | he := create_cases h.state upload
  · rw [he] at hu'
    exact .inl hu'
  · rw [he] at hu'
    obtain ⟨hid, rfl⟩ | ⟨-, hu'⟩ := KeyMap.get?_insert_cases hu'
    · exact .inr ⟨hid, rfl⟩
    · exact .inl hu'

theorem Fencing.create (hF : Fencing h) (hfresh : upload.identity.uploadId ∉ h.created) :
    Fencing (h.next quotas env (.create upload)) where
  known id u hu := by
    obtain hu | ⟨rfl, -⟩ := create_get? hu
    · exact History.mem_created_next (hF.known id u hu)
    · exact mem_cons_self
  spoken id hne := History.mem_created_next (hF.spoken id hne)
  past id u hu e he := by
    obtain hu | ⟨rfl, -⟩ := create_get? hu
    · exact hF.past id u hu e he
    · -- nobody has been told anything about an upload that did not exist
      exact absurd (hF.spoken _ (ne_nil_of_mem he)) hfresh
  ordered id := hF.ordered id
  origin id u fingerprint result hu hl hfp hr := by
    obtain hu | ⟨rfl, rfl⟩ := create_get? hu
    · exact (hF.origin id u _ _ hu hl hfp hr).next
    · exact .inr ⟨_, mem_cons_self, u, rfl, rfl, hl, hfp, hr⟩
  replays id fingerprint result he := (hF.replays id _ _ he).next

theorem Fencing.rehash (hF : Fencing h) (hs : SameContents h.state s) : Fencing ⟨s, h.log⟩ where
  known id u hu := hF.known id u ((hs.uploads.get?_eq id).trans hu)
  spoken := hF.spoken
  past id u hu := hF.past id u ((hs.uploads.get?_eq id).trans hu)
  ordered := hF.ordered
  origin id u _ _ hu := hF.origin id u _ _ ((hs.uploads.get?_eq id).trans hu)
  replays := hF.replays

/-- **The log is in order in every history.** -/
theorem fencing_of_reach (r : Reach History.Init (Guarded (Step quotas) FreshUploads) h) :
    Fencing h := by
  refine r.invariant ?_ ?_
  · rintro _ rfl
    exact ⟨fun id u hu => by simp [History.new, new] at hu, fun _ h => absurd rfl h,
      fun id u hu => by simp [History.new, new] at hu, fun _ => .nil,
      fun id u _ _ hu => by simp [History.new, new] at hu, fun _ _ _ he => by cases he⟩
  · rintro h e h' - hF ⟨hstep, hfresh⟩
    cases hstep with
    | call env c =>
      by_cases hc : ∃ upload, c = .create upload
      · obtain ⟨upload, rfl⟩ := hc
        exact hF.create (hfresh upload rfl)
      · exact hF.next_of_fated (Call.fated (not_exists.mp hc))
    | rehash hs => exact hF.rehash hs

theorem Fencing.step_move {h' : History} {e : Event}
    (hF : Fencing h) (hstep : Guarded (Step quotas) FreshUploads h e h')
    (hu : h.state.uploads.get? id = some u) (hu' : h'.state.uploads.get? id = some u') :
    LifecycleMove u.lifecycle u'.lifecycle ∧
      u.completionFencingToken ≤ u'.completionFencingToken := by
  obtain ⟨hstep, hfresh⟩ := hstep
  cases hstep with
  | call env c =>
    by_cases hc : ∃ upload, c = .create upload
    · obtain ⟨upload, rfl⟩ := hc
      obtain hu' | ⟨rfl, -⟩ := create_get? hu'
      · cases hu.symm.trans hu'
        exact ⟨.stay _, le_rfl⟩
      · exact absurd (hF.known _ u hu) (hfresh upload rfl)
    · obtain ⟨v, hv, ha⟩ := (Call.fated (not_exists.mp hc)).advance hu'
      cases hu.symm.trans hv
      exact ⟨ha.lifecycleMove, ha.token_le⟩
  | rehash hs =>
    cases hu.symm.trans ((hs.uploads.get?_eq id).trans hu')
    exact ⟨.stay _, le_rfl⟩

/-- The upload and the fencing token that a call presents. -/
def Call.presents? : Call → Option (String × Nat)
  | .renewCompletion identity token _ => some (identity.uploadId, token)
  | .checkCompletionLease identity token _ => some (identity.uploadId, token)
  | .completeCompletion identity token _ _ => some (identity.uploadId, token)
  | _ => none

/-- A call that presents a token and succeeds is an event of that token. -/
theorem Call.event_of_presents {reply : Reply} (hc : c.presents? = some (id, token))
    (hok : (c.run quotas env s).1 = .ok reply) :
    ∃ event, (c.entry quotas env s).event? id = some event ∧
      (event = .held token ∨ ∃ result, event = .completed token result) := by
  cases c with
  | renewCompletion | checkCompletionLease =>
    cases hc
    refine ⟨.held token, ?_, .inl rfl⟩
    simp [Call.entry, Entry.event?, Entry.completion?, hok]
  | completeCompletion identity t result =>
    cases hc
    refine ⟨.completed token result, ?_, .inr ⟨result, rfl⟩⟩
    simp [Call.entry, Entry.event?, Entry.completion?, hok]
  | _ => cases hc

theorem Fencing.older_token_fails {older : Nat}
    (hF : Fencing h) (ha : .acquired fingerprint token ∈ h.events id)
    (hc : c.presents? = some (id, older)) (hlt : older < token) :
    ∃ e, (c.run quotas env h.state).1 = .error e := by
  cases hok : (c.run quotas env h.state).1 with
  | error e => exact ⟨e, rfl⟩
  | ok =>
    have hne : ∀ upload, c ≠ .create upload := by
      rintro upload rfl
      cases hc
    obtain ⟨event, hev, hkind⟩ := Call.event_of_presents hc hok
    have hfate : c.Fated quotas env h.state := Call.fated hne
    have hf := hfate id
    rw [hev] at hf
    obtain ⟨u, u', hu, hadv⟩ := hf.of_event
    have hfollows := CompletionEvent.follows_of_advance hadv (hF.past id u hu _ ha)
    obtain rfl | ⟨result, rfl⟩ := hkind
    · exact absurd hfollows (by simp only [CompletionEvent.Follows]; omega)
    · exact absurd hfollows (by simp only [CompletionEvent.Follows]; omega)

/-- **Completion is fenced.**  In every history in which no upload id is created twice: a step moves
an upload's lifecycle only from `Open` to `Completing`, `Aborted` or `Expired` and from `Completing`
to `Completed`, and never lowers its token; the completion events of an upload come in order; what
they say holds of the upload from then on; a call with a token older than one acquired fails; and a
replay repeats a recorded result. -/
theorem completion_fencing (r : Reach History.Init (Guarded (Step quotas) FreshUploads) h) :
    (∀ e h', Guarded (Step quotas) FreshUploads h e h' → ∀ id u u',
      h.state.uploads.get? id = some u → h'.state.uploads.get? id = some u' →
        LifecycleMove u.lifecycle u'.lifecycle ∧
          u.completionFencingToken ≤ u'.completionFencingToken) ∧
    (∀ id, (h.events id).Pairwise CompletionEvent.Follows) ∧
    (∀ id u, h.state.uploads.get? id = some u → ∀ e ∈ h.events id, e.Past u) ∧
    (∀ id fingerprint token, .acquired fingerprint token ∈ h.events id →
      ∀ env (c : Call) older, c.presents? = some (id, older) → older < token →
        ∃ e, (c.run quotas env h.state).1 = .error e) ∧
    (∀ id fingerprint result, .replayed fingerprint result ∈ h.events id →
      h.Recorded id fingerprint result) := by
  have hF := fencing_of_reach r
  refine ⟨?_, hF.ordered, hF.past, ?_, hF.replays⟩
  · intro e h' hstep id u u' hu hu'
    exact hF.step_move hstep hu hu'
  · intro id fingerprint token ha env c older hc hlt
    exact hF.older_token_fails ha hc hlt

end Histories

/-- A completion that is taken over after the first lease ran out, finished, and asked for again. -/
def takeoverScript : Script :=
  let parts : List CompletePart := [⟨1, "etag", none⟩]
  sampleScript ++
    [(⟨20, ""⟩, .acquireCompletion sampleIdentity "request" parts "first" 50 20),
      (⟨60, ""⟩, .acquireCompletion sampleIdentity "request" parts "second" 100 60),
      (⟨65, ""⟩, .renewCompletion sampleIdentity 1 200),
      (⟨70, ""⟩, .completeCompletion sampleIdentity 2 ⟨none, "sum", none, 30, 30⟩ 70),
      (⟨80, ""⟩, .acquireCompletion sampleIdentity "request" parts "third" 150 80)]

/-- The events of the takeover: the first holder is told nothing after it has lost the lease. -/
theorem takeover_fencing :
    (History.new.runScript sampleQuotas takeoverScript).events "upload" =
        [.replayed "request" ⟨none, "sum", none, 30, 30⟩,
          .completed 2 ⟨none, "sum", none, 30, 30⟩, .acquired "request" 2,
          .acquired "request" 1] ∧
      ∀ env (c : Call), c.presents? = some ("upload", 1) → ∃ e,
        (c.run sampleQuotas env (History.new.runScript sampleQuotas takeoverScript).state).1 =
          .error e := by
  have r : Reach History.Init (Guarded (Step sampleQuotas) FreshUploads)
      (History.new.runScript sampleQuotas takeoverScript) :=
    History.reach_runScript (.init rfl) (by decide +kernel)
  have hevents : (History.new.runScript sampleQuotas takeoverScript).events "upload" =
      [.replayed "request" ⟨none, "sum", none, 30, 30⟩,
        .completed 2 ⟨none, "sum", none, 30, 30⟩, .acquired "request" 2,
        .acquired "request" 1] := by
    decide +kernel
  refine ⟨hevents, fun env c hc => ?_⟩
  refine (completion_fencing r).2.2.2.1 "upload" "request" 2 ?_ env c 1 hc (by decide)
  rw [hevents]
  simp

end S4.Staging
