import Mathlib

/-!
# Library — Leases — logs of issued leases

A lease is given out for a subject `k` under a token `t`.  A log lists the leases in the order they
were issued, the newest first.  `current log k` is the token last issued for `k`, and
`Superseded log k t` says that after `t` another token was issued for `k`.

`Wf log` says what never issuing a token twice gives: a token belongs to one subject, and the
current token of a subject is not superseded.  It survives a lease under a token that the log does
not hold (`Wf.issue`, `Wf.issueAll`) and a second lease under the current token (`Wf.reissue`).
-/

namespace Lib.LeaseLog

open List

variable {K T : Type} {k : K} {t : T}

/-- After a lease of `k` under `t`, one of `k` under another token was issued. -/
def Superseded (k : K) (t : T) : List (K × T) → Prop
  | [] => False
  | (k', t') :: log => (k' = k ∧ t' ≠ t ∧ (k, t) ∈ log) ∨ Superseded k t log

theorem Superseded.mem : ∀ {log : List (K × T)}, Superseded k t log → (k, t) ∈ log
  | _ :: _, .inl h => mem_cons_of_mem _ h.2.2
  | _ :: _, .inr h => mem_cons_of_mem _ h.mem

variable [DecidableEq K] {issued : List (K × T)}

/-- The token that was last issued for `k`. -/
def current (k : K) : List (K × T) → Option T
  | [] => none
  | (k', t) :: log => if k' = k then some t else current k log

theorem mem_of_current : ∀ {log : List (K × T)}, current k log = some t → (k, t) ∈ log
  | (k', t') :: log, h => by
    by_cases hk : k' = k
    · rw [current, if_pos hk] at h
      cases h
      simp [hk]
    · rw [current, if_neg hk] at h
      exact mem_cons_of_mem _ (mem_of_current h)

theorem current_append_of_mem {log : List (K × T)}
    (hn : (issued.map Prod.fst).Nodup) (h : (k, t) ∈ issued) :
    current k (issued ++ log) = some t := by
  induction issued with
  | nil => cases h
  | cons e issued ih =>
    rw [map_cons, nodup_cons] at hn
    rcases mem_cons.mp h with rfl | h
    · simp [current]
    · have hk : e.1 ≠ k := by
        rintro rfl
        exact hn.1 (mem_map.mpr ⟨_, h, rfl⟩)
      rw [cons_append, current, if_neg hk, ih hn.2 h]

theorem current_append_of_notMem {log : List (K × T)}
    (h : k ∉ issued.map Prod.fst) : current k (issued ++ log) = current k log := by
  induction issued with
  | nil => rfl
  | cons e issued ih =>
    rw [map_cons, mem_cons, not_or] at h
    rw [cons_append, current, if_neg (Ne.symm h.1), ih h.2]

/-- No token belongs to two subjects, and no current token is superseded. -/
structure Wf (log : List (K × T)) : Prop where
  owner : ∀ k k' t, (k, t) ∈ log → (k', t) ∈ log → k = k'
  fenced : ∀ k t, current k log = some t → ¬ Superseded k t log

namespace Wf

theorem nil : Wf ([] : List (K × T)) := ⟨by simp, by simp [current]⟩

variable {log : List (K × T)}

/-- A token that is no other subject's, and not superseded, may be issued. -/
theorem cons (h : Wf log) (ho : ∀ k', (k', t) ∈ log → k' = k)
    (hf : ¬ Superseded k t log) : Wf ((k, t) :: log) where
  owner k₁ k₂ t' h₁ h₂ := by
    rcases mem_cons.mp h₁ with e₁ | h₁ <;> rcases mem_cons.mp h₂ with e₂ | h₂
    · cases e₁
      cases e₂
      rfl
    · cases e₁
      exact (ho _ h₂).symm
    · cases e₂
      exact ho _ h₁
    · exact h.owner _ _ _ h₁ h₂
  fenced k' t' hc hs := by
    by_cases hk : k = k'
    · rw [current, if_pos hk] at hc
      cases hc
      subst hk
      rcases hs with ⟨-, hne, -⟩ | hs
      · exact hne rfl
      · exact hf hs
    · rw [current, if_neg hk] at hc
      rcases hs with ⟨e, -, -⟩ | hs
      · exact hk e
      · exact h.fenced _ _ hc hs

theorem issue (h : Wf log) (hn : ∀ k', (k', t) ∉ log) : Wf ((k, t) :: log) :=
  h.cons (fun k' hm => absurd hm (hn k')) fun hs => hn _ hs.mem

theorem reissue (h : Wf log) (hc : current k log = some t) : Wf ((k, t) :: log) :=
  h.cons (fun _ hm => h.owner _ _ _ hm (mem_of_current hc)) (h.fenced k t hc)

theorem issueAll (h : Wf log) (hd : (issued.map Prod.snd).Nodup)
    (hn : ∀ k t, (k, t) ∈ log → t ∉ issued.map Prod.snd) : Wf (issued ++ log) := by
  induction issued with
  | nil => exact h
  | cons e issued ih =>
    rw [map_cons, nodup_cons] at hd
    have hlog : ∀ k t, (k, t) ∈ log → t ∉ issued.map Prod.snd := by
      intro k t hm hi
      exact hn k t hm (mem_cons_of_mem _ hi)
    refine (ih hd.2 hlog).issue ?_
    intro k' hm
    rcases mem_append.mp hm with hm | hm
    · exact hd.1 (mem_map.mpr ⟨_, hm, rfl⟩)
    · exact hn k' e.2 hm mem_cons_self

/-- A token that is superseded for some subject is current for none. -/
theorem superseded_ne_current (h : Wf log) {k' : K} (hs : Superseded k t log) :
    current k' log ≠ some t := by
  intro hc
  obtain rfl := h.owner _ _ _ hs.mem (mem_of_current hc)
  exact h.fenced _ _ hc hs

end Wf

end Lib.LeaseLog
