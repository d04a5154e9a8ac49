import S4.Filters.Tokens

/-!
# Filters — Replacement

`replaceSpans` takes spans in the order of their starts, of those with one start the shortest, and
passes over a span that begins inside one it has written (`replaced`).  So the spans that it writes
are apart (`replaced_apart`), and a span that it does not write begins inside one that it writes, or
with it (`mem_replaced_or`).  The result is the input with the written spans replaced
(`replaceSpans_eq_splice`).
-/

namespace S4.Filters

open Lib List
open Records (Bytes)

variable {spans : List Span} {span span' : Span} {pos : Nat}

/-! ### Sorting -/

instance : Std.Total Span.le := ⟨fun a b => by simp only [Span.le]; omega⟩

instance : IsTrans Span Span.le := ⟨fun a b c => by simp only [Span.le]; omega⟩

theorem dedupByStart_subset (spans : List Span) : dedupByStart spans ⊆ spans := by
  induction spans with
  | nil => exact fun _ h => h
  | cons span rest ih =>
    intro a ha
    rw [dedupByStart] at ha
    split at ha
    · exact mem_cons.mpr (.inl (mem_singleton.mp ha))
    · next next rest' heq =>
      rw [heq] at ih
      split at ha
      · rcases mem_cons.mp ha with rfl | ha
        · exact mem_cons_self
        · exact mem_cons_of_mem _ (ih (mem_cons_of_mem _ ha))
      · rcases mem_cons.mp ha with rfl | ha
        · exact mem_cons_self
        · exact mem_cons_of_mem _ (ih ha)

/-- Of the spans with one start, the first stays. -/
theorem dedupByStart_spec (h : spans.Pairwise Span.le) :
    (dedupByStart spans).Pairwise (fun a b => a.start < b.start) ∧
    ∀ span ∈ spans, ∃ first ∈ dedupByStart spans, first.start = span.start ∧
      first.stop ≤ span.stop := by
  induction spans with
  | nil => exact ⟨.nil, fun _ h => absurd h not_mem_nil⟩
  | cons span rest ih =>
    obtain ⟨hle, hrest⟩ := pairwise_cons.mp h
    obtain ⟨hsorted, hfirst⟩ := ih hrest
    have hsub := dedupByStart_subset rest
    rw [dedupByStart]
    split
    · next heq =>
      refine ⟨pairwise_singleton _ _, fun a ha => ?_⟩
      rcases mem_cons.mp ha with rfl | ha
      · exact ⟨a, mem_cons_self, rfl, Nat.le_refl _⟩
      · obtain ⟨first, hmem, -⟩ := hfirst a ha
        rw [heq] at hmem
        cases hmem
    · next next rest' heq =>
      rw [heq] at hsorted hsub hfirst
      obtain ⟨hnext, hsorted'⟩ := pairwise_cons.mp hsorted
      have hspan := hle next (hsub mem_cons_self)
      simp only [Span.le] at hspan
      split
      · next hsame =>
        refine ⟨pairwise_cons.mpr ⟨fun a ha => hsame ▸ hnext a ha, hsorted'⟩, fun a ha => ?_⟩
        rcases mem_cons.mp ha with rfl | ha
        · exact ⟨a, mem_cons_self, rfl, Nat.le_refl _⟩
        · obtain ⟨first, hmem, hstart, hstop⟩ := hfirst a ha
          rcases mem_cons.mp hmem with rfl | hmem
          · exact ⟨span, mem_cons_self, by omega, by omega⟩
          · exact ⟨first, mem_cons_of_mem _ hmem, hstart, hstop⟩
      · next hdiff =>
        refine ⟨pairwise_cons.mpr ⟨fun a ha => ?_, hsorted⟩, fun a ha => ?_⟩
        · rcases mem_cons.mp ha with rfl | ha
          · omega
          · have := hnext a ha
            omega
        · rcases mem_cons.mp ha with rfl | ha
          · exact ⟨a, mem_cons_self, rfl, Nat.le_refl _⟩
          · obtain ⟨first, hmem, hstart, hstop⟩ := hfirst a ha
            exact ⟨first, mem_cons_of_mem _ hmem, hstart, hstop⟩

theorem sortSpans_sorted (spans : List Span) :
    (sortSpans spans).Pairwise fun a b => a.start < b.start :=
  (dedupByStart_spec (pairwise_insertionSort Span.le spans)).1

theorem mem_of_mem_sortSpans (h : span ∈ sortSpans spans) : span ∈ spans :=
  (mem_insertionSort Span.le).mp (dedupByStart_subset _ h)

theorem exists_mem_sortSpans (h : span ∈ spans) :
    ∃ first ∈ sortSpans spans, first.start = span.start ∧ first.stop ≤ span.stop :=
  (dedupByStart_spec (pairwise_insertionSort Span.le spans)).2 span
    ((mem_insertionSort Span.le).mpr h)

/-- Of the spans with one start, only a shortest stays. -/
theorem stop_le_of_mem_sortSpans (h : span ∈ sortSpans spans) (h' : span' ∈ spans)
    (heq : span'.start = span.start) : span.stop ≤ span'.stop := by
  obtain ⟨first, hfirst, hstart, hstop⟩ := exists_mem_sortSpans h'
  have hsorted : (sortSpans spans).Pairwise fun a b => a.start ≠ b.start :=
    (sortSpans_sorted spans).imp fun h => Nat.ne_of_lt h
  have : Std.Symm fun a b : Span => a.start ≠ b.start := ⟨fun _ _ => Ne.symm⟩
  by_cases hsame : first = span
  · rwa [← hsame]
  · exact absurd (hstart.trans heq) (hsorted.forall hfirst h hsame)

/-! ### Writing -/

/-- The spans that the loop of `replace_spans` writes. -/
def selectSpans : (pos : Nat) → List Span → List Span
  | _,   [] => []
  | pos, span :: rest =>
    if span.start < pos then selectSpans pos rest else span :: selectSpans span.stop rest

/-- The input from `pos` on with the spans replaced. -/
def splice (input : Bytes) : (pos : Nat) → List Span → Bytes
  | pos, [] => input.drop pos
  | pos, span :: rest => slice input pos span.start ++ span.marker ++ splice input span.stop rest

theorem writeSpans_eq_splice (input : Bytes) (pos : Nat) (spans : List Span) :
    writeSpans input pos spans = splice input pos (selectSpans pos spans) := by
  induction spans generalizing pos with
  | nil => rfl
  | cons span rest ih =>
    rw [writeSpans, selectSpans]
    split
    · exact ih pos
    · rw [splice, ih]

theorem selectSpans_subset (pos : Nat) (spans : List Span) : selectSpans pos spans ⊆ spans := by
  induction spans generalizing pos with
  | nil => exact fun _ h => h
  | cons span rest ih =>
    rw [selectSpans]
    split
    · exact fun a ha => mem_cons_of_mem _ (ih pos ha)
    · exact cons_subset_cons _ (ih span.stop)

/-- The spans that are written do not overlap. -/
theorem selectSpans_apart (h : spans.Pairwise fun a b => a.start < b.start)
    (hlt : ∀ span ∈ spans, span.start < span.stop) (pos : Nat) :
    (selectSpans pos spans).Pairwise (fun a b => a.stop ≤ b.start) ∧
      ∀ span ∈ selectSpans pos spans, pos ≤ span.start := by
  induction spans generalizing pos with
  | nil => exact ⟨.nil, fun _ h => absurd h not_mem_nil⟩
  | cons span rest ih =>
    obtain ⟨-, hrest⟩ := pairwise_cons.mp h
    have hlt' := fun a ha => hlt a (mem_cons_of_mem span ha)
    rw [selectSpans]
    split
    · exact ih hrest hlt' pos
    · next hge =>
      obtain ⟨hapart, hpos⟩ := ih hrest hlt' span.stop
      refine ⟨pairwise_cons.mpr ⟨hpos, hapart⟩, fun a ha => ?_⟩
      have := hlt span mem_cons_self
      rcases mem_cons.mp ha with rfl | ha
      · omega
      · have := hpos a ha
        omega

/-- A span that is not written begins before `pos` or inside a span that is written. -/
theorem mem_selectSpans_or (h : spans.Pairwise fun a b => a.start < b.start) (hspan : span ∈ spans)
    (pos : Nat) :
    span ∈ selectSpans pos spans ∨ span.start < pos ∨
      ∃ other ∈ selectSpans pos spans, other.start < span.start ∧ span.start < other.stop := by
  induction spans generalizing pos with
  | nil => cases hspan
  | cons first rest ih =>
    obtain ⟨hfirst, hrest⟩ := pairwise_cons.mp h
    rw [selectSpans]
    rcases mem_cons.mp hspan with rfl | hmem
    · split
      · next hlt => exact .inr (.inl hlt)
      · exact .inl mem_cons_self
    · split
      · exact ih hrest hmem pos
      · rcases ih hrest hmem first.stop with h₁ | h₂ | ⟨other, hother, h₃⟩
        · exact .inl (mem_cons_of_mem _ h₁)
        · exact .inr (.inr ⟨first, mem_cons_self, hfirst span hmem, h₂⟩)
        · exact .inr (.inr ⟨other, mem_cons_of_mem _ hother, h₃⟩)

/-- The spans that `replaceSpans` writes over. -/
def replaced (spans : List Span) : List Span := selectSpans 0 (sortSpans spans)

/-- **`replaceSpans` writes the marker of each replaced span, and keeps every other byte.** -/
theorem replaceSpans_eq_splice (input : Bytes) (spans : List Span) :
    replaceSpans input spans = splice input 0 (replaced spans) := writeSpans_eq_splice input 0 _

theorem mem_of_mem_replaced (h : span ∈ replaced spans) : span ∈ spans :=
  mem_of_mem_sortSpans (selectSpans_subset 0 _ h)

theorem stop_le_of_mem_replaced (h : span ∈ replaced spans) (h' : span' ∈ spans)
    (heq : span'.start = span.start) : span.stop ≤ span'.stop :=
  stop_le_of_mem_sortSpans (selectSpans_subset 0 _ h) h' heq

theorem replaced_apart (hlt : ∀ span ∈ spans, span.start < span.stop) :
    (replaced spans).Pairwise fun a b => a.stop ≤ b.start :=
  (selectSpans_apart (sortSpans_sorted spans) (fun _ h => hlt _ (mem_of_mem_sortSpans h)) 0).1

/-- **A span that is not written begins inside one that is, or there is a shorter one with its
start.** -/
theorem mem_replaced_or (h : span ∈ spans) :
    span ∈ replaced spans ∨
      (∃ other ∈ spans, other ≠ span ∧ other.start = span.start ∧ other.stop ≤ span.stop) ∨
      ∃ other ∈ replaced spans, other.start < span.start ∧ span.start < other.stop := by
  obtain ⟨first, hfirst, hstart, hstop⟩ := exists_mem_sortSpans h
  by_cases heq : first = span
  · rcases mem_selectSpans_or (sortSpans_sorted spans) (heq ▸ hfirst) 0 with h₁ | h₂ | h₃
    · exact .inl h₁
    · exact absurd h₂ (Nat.not_lt_zero _)
    · exact .inr (.inr h₃)
  · exact .inr (.inl ⟨first, mem_of_mem_sortSpans hfirst, heq, hstart, hstop⟩)

end S4.Filters
