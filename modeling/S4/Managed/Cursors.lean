import S4.Managed.Repository

/-!
# Managed — Cursors

The list cursors of the repository: a page of a listing that did not fit leaves a cursor behind, and
the request for the next page uses it.  A cursor is bound to its query and to the epochs of its
tenant, expires, and may have one successor, the cursor of the page after it.
-/

namespace S4.Managed

variable (env : CallEnv) (s : MemoryState)

open Lib

def managedListCursorTtlMs : Int := 15 * 60 * 1000
def managedListCursorWorkspaceLimit : Nat := 100
def managedListCursorGlobalLimit : Nat := 10000
def managedListCursorResponseMaxBytes : Nat := 64 * 1024
def managedListCursorWorkspaceMaxBytes : Nat := 1024 * 1024
def managedListCursorGlobalMaxBytes : Nat := 64 * 1024 * 1024

/-- The epochs of the tenant, as a cursor is fenced by them. -/
def MemoryState.routeFence (tenant : String) : ManagedRouteFence :=
  ⟨s.namespaceEpoch tenant, s.routingEpoch tenant⟩

/-- The response bytes that the cursors hold, unless the sum overflows. -/
def responseBytes (cursors : List ManagedListCursor) : Option Nat :=
  cursors.foldlM (fun total cursor => checkedAdd 64 total cursor.responseStateBytes) 0

/-- The cursors that have not expired. -/
def MemoryState.liveCursors (nowMs : Int) : List ManagedListCursor :=
  s.listCursors.values.filter fun cursor => cursor.expiresAtMs > nowMs

/-- Would one more cursor with that many response bytes be too much for its tenant, or for all? -/
def MemoryState.cursorsFull (nowMs : Int) (tenant : String) (bytes : Nat) : Bool :=
  let global := s.liveCursors nowMs
  let workspace := global.filter fun cursor => cursor.binding.tenantId == tenant
  match responseBytes workspace, responseBytes global with
  | some workspaceBytes, some globalBytes =>
    workspace.length ≥ managedListCursorWorkspaceLimit ||
      global.length ≥ managedListCursorGlobalLimit ||
      (checkedAdd 64 workspaceBytes bytes).all (· > managedListCursorWorkspaceMaxBytes) ||
      (checkedAdd 64 globalBytes bytes).all (· > managedListCursorGlobalMaxBytes)
  | _, _ => true

/-- `create_list_cursor_in_state`, which is all of `create_list_cursor`. -/
def createListCursor (request : ManagedListCursorRequest)
    (nowMs : Int) : Outcome ManagedListCursor :=
  let bytes := (utf8 request.responseState).length
  if bytes > managedListCursorResponseMaxBytes then (.error .cursorLimitExceeded, s)
  else if s.fenced request.binding.tenantId then (.error .namespaceFenced, s)
  else if s.cursorsFull nowMs request.binding.tenantId bytes then (.error .cursorLimitExceeded, s)
  else
    let cursor : ManagedListCursor :=
      { id := env.uuid 0
        binding := request.binding
        fence := s.routeFence request.binding.tenantId
        position := request.position
        responseState := request.responseState
        responseStateBytes := bytes
        finalPage := request.finalPage
        state := .active
        createdAtMs := nowMs
        expiresAtMs := satAddInt 64 nowMs managedListCursorTtlMs
        firstUsedAtMs := none }
    (.ok cursor, { s with listCursors := s.listCursors.insert cursor.id cursor })

def cursorMatchesRequest (cursor : ManagedListCursor) (request : ManagedListCursorRequest) : Bool :=
  cursor.binding == request.binding && cursor.position == request.position &&
    cursor.responseState == request.responseState && cursor.finalPage == request.finalPage

/-- The cursor of the next page; a retry is given the same one. -/
def createListCursorSuccessor (predecessorCursorId : Uuid)
    (request : ManagedListCursorRequest) (nowMs : Int) : Outcome ManagedListCursor :=
  match s.listCursorSuccessors.get? predecessorCursorId with
  | some successorId =>
    match s.listCursors.get? successorId with
    | none => (.error (.corrupt "managed cursor successor is missing"), s)
    | some cursor =>
      if cursor.expiresAtMs ≤ nowMs ∨ cursor.fence ≠ s.routeFence cursor.binding.tenantId then
        (.error .cursorExpired, s)
      else if cursorMatchesRequest cursor request then (.ok cursor, s)
      else (.error .conflict, s)
  | none =>
    match createListCursor env s request nowMs with
    | (.error e, s) => (.error e, s)
    | (.ok cursor, s) => (.ok cursor, { s with
        listCursorSuccessors := s.listCursorSuccessors.insert predecessorCursorId cursor.id })

/-- Remove a cursor, and before it the cursors of all later pages. -/
def MemoryState.removeListCursor (s : MemoryState) (cursorId : Uuid) : MemoryState :=
  let removed :=
    match _h : s.listCursorSuccessors.get? cursorId with
    | none => s
    | some successorId =>
      { s with listCursorSuccessors := s.listCursorSuccessors.erase cursorId }
        |>.removeListCursor successorId
  { removed with
    listCursorSuccessors := removed.listCursorSuccessors.retain fun _ successor =>
      successor != cursorId
    listCursors := removed.listCursors.erase cursorId }
termination_by s.listCursorSuccessors.size
decreasing_by exact KeyMap.size_erase_lt _h

def useListCursor (cursorId : Uuid) (binding : ManagedListCursorBinding)
    (nowMs : Int) : Outcome ManagedListCursor :=
  if s.fenced binding.tenantId then (.error .namespaceFenced, s)
  else match s.listCursors.get? cursorId with
    | none => (.error .cursorExpired, s)
    | some cursor =>
      if cursor.expiresAtMs ≤ nowMs then (.error .cursorExpired, s.removeListCursor cursorId)
      else if cursor.binding ≠ binding then (.error .cursorQueryMismatch, s)
      else if cursor.fence ≠ s.routeFence cursor.binding.tenantId then
        (.error .cursorExpired, s.removeListCursor cursorId)
      else
        let cursor := if cursor.state = .active then
            { cursor with state := .used, firstUsedAtMs := some nowMs }
          else cursor
        (.ok cursor, { s with listCursors := s.listCursors.insert cursorId cursor })

def deleteListCursor (cursorId : Uuid) : MemoryState :=
  s.removeListCursor cursorId

def cleanupExpiredListCursors (nowMs : Int) (limit : Nat) : MemoryState :=
  let expired := (s.listCursors.values.filter fun cursor => cursor.expiresAtMs ≤ nowMs).map
    fun cursor => (cursor.expiresAtMs, cursor.id)
  let sorted := expired.insertionSort fun a b =>
    a.1 < b.1 ∨ (a.1 = b.1 ∧ a.2.val ≤ b.2.val)
  (sorted.take limit).foldl (fun s entry => s.removeListCursor entry.2) s

/-! ### Only the cursors change -/

/-- The two states agree outside the list cursors. -/
def OnlyCursors (s s' : MemoryState) : Prop :=
  s' = { s with listCursors := s'.listCursors, listCursorSuccessors := s'.listCursorSuccessors }

theorem OnlyCursors.refl : OnlyCursors s s := rfl

theorem OnlyCursors.trans {s s₁ s₂ : MemoryState} (h₁ : OnlyCursors s s₁)
    (h₂ : OnlyCursors s₁ s₂) : OnlyCursors s s₂ := by
  unfold OnlyCursors at *
  rw [h₂, h₁]

theorem createListCursor_only (request : ManagedListCursorRequest) (nowMs : Int) :
    OnlyCursors s (createListCursor env s request nowMs).2 := by
  simp only [createListCursor]
  repeat' split
  all_goals rfl

theorem createListCursorSuccessor_only (id : Uuid)
    (request : ManagedListCursorRequest) (nowMs : Int) :
    OnlyCursors s (createListCursorSuccessor env s id request nowMs).2 := by
  have hc := createListCursor_only env s request nowMs
  unfold createListCursorSuccessor
  split
  · repeat' split
    all_goals rfl
  · split
    · rename_i e
      rw [e] at hc
      exact hc
    · rename_i e
      rw [e] at hc
      exact hc.trans rfl

theorem MemoryState.removeListCursor_only (id : Uuid) : OnlyCursors s (s.removeListCursor id) := by
  induction s, id using removeListCursor.induct with
  | case1 s id ih =>
    unfold removeListCursor
    split
    · rfl
    · rename_i successor h
      have hs : OnlyCursors s
          { s with listCursorSuccessors := s.listCursorSuccessors.erase id } := rfl
      exact (hs.trans (ih successor h)).trans rfl

theorem useListCursor_only (id : Uuid) (binding : ManagedListCursorBinding)
    (nowMs : Int) : OnlyCursors s (useListCursor s id binding nowMs).2 := by
  unfold useListCursor
  repeat' split
  all_goals first | rfl | exact s.removeListCursor_only id

theorem cleanupExpiredListCursors_only (nowMs : Int) (limit : Nat) :
    OnlyCursors s (cleanupExpiredListCursors s nowMs limit) := by
  have hfold : ∀ (expired : List (Int × Uuid)) (s : MemoryState),
      OnlyCursors s (expired.foldl (fun s entry => s.removeListCursor entry.2) s) := by
    intro expired
    induction expired with
    | nil => exact .refl
    | cons entry rest ih => exact fun s => (s.removeListCursor_only entry.2).trans (ih _)
  exact hfold _ s

end S4.Managed
