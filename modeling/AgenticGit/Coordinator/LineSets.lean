import AgenticGit.Coordinator.Ranges

/- Lists of line ranges as sets of lines: what `ranges.ts` computes, up to the
   way a set is written.

   `Ranges` says which lines the functions of `ranges.ts` keep. This file says
   how they write them:

   1. a set of lines has one normal list (`Normal.unique`), so two valid lists
      cover the same lines exactly when they normalize to the same list
      (`normalizeRanges_eq_iff`);
   2. what a subtraction leaves is sorted and disjoint
      (`subtractRanges_separate`) and shares no line with what was taken out
      (`not_lineIn_subtractRanges`);
   3. spans intersect exactly when they share a line
      (`rangesIntersect_iff`). -/
namespace AgenticGit.Coordinator
open AgenticGit.Runtime AgenticGit.Shared

/-! ## One normal list for a set -/

variable {ranges : List LineRange} {first second : List LineRange} {cuts : List LineRange}
  {source removed : List LineRange}

theorem Normal.tail {range : LineRange} (h : Normal (range :: ranges)) : Normal ranges where
  apart := (List.pairwise_cons.mp h.apart).2
  nonempty other ho := h.nonempty other (List.mem_cons_of_mem _ ho)
  start_pos other ho := h.start_pos other (List.mem_cons_of_mem _ ho)

theorem Normal.start_le {range : LineRange} (h : Normal (range :: ranges)) {line : Int}
    (hl : LineIn (range :: ranges) line) : range.startLine ≤ line := by
  rcases lineIn_cons.mp hl with hm | ⟨other, ho, hm⟩
  · exact hm.1
  · have ha := (List.pairwise_cons.mp h.apart).1 other ho
    have hne := h.nonempty range List.mem_cons_self
    unfold Apart at ha
    have := hm.1
    omega

theorem Normal.lineIn_tail {range : LineRange} (h : Normal (range :: ranges)) {line : Int} :
    LineIn ranges line ↔ LineIn (range :: ranges) line ∧ range.endLine < line := by
  have hafter (hl : LineIn ranges line) : range.endLine + 1 < line := by
    obtain ⟨other, ho, hm⟩ := hl
    have ha := (List.pairwise_cons.mp h.apart).1 other ho
    unfold Apart at ha
    have := hm.1
    omega
  constructor
  · intro hl
    exact ⟨lineIn_cons.mpr (.inr hl), by have := hafter hl; omega⟩
  · rintro ⟨hl, hend⟩
    refine (lineIn_cons.mp hl).resolve_left fun hm => ?_
    have := hm.2
    omega

theorem Normal.end_le {range other : LineRange} {ranges others : List LineRange}
    (h : Normal (other :: others)) (hstart : range.startLine = other.startLine)
    (hl : ∀ line, LineIn (range :: ranges) line → LineIn (other :: others) line) :
    range.endLine ≤ other.endLine := by
  by_contra hlt
  have hne := h.nonempty other List.mem_cons_self
  have hgap : LineIn (range :: ranges) (other.endLine + 1) :=
    lineIn_cons.mpr (.inl ⟨by omega, by omega⟩)
  rcases lineIn_cons.mp (hl _ hgap) with hm | ⟨later, ho, hm⟩
  · have := hm.2
    omega
  · have ha := (List.pairwise_cons.mp h.apart).1 later ho
    unfold Apart at ha
    have := hm.1
    omega

/-- **A set of lines has one normal list**. -/
theorem Normal.unique (h₁ : Normal first) (h₂ : Normal second)
    (h : ∀ line, LineIn first line ↔ LineIn second line) : first = second := by
  induction first generalizing second with
  | nil =>
    cases second with
    | nil => rfl
    | cons other others =>
      have hne := h₂.nonempty other List.mem_cons_self
      have := (h other.startLine).mpr (lineIn_cons.mpr (.inl ⟨le_refl _, hne⟩))
      exact absurd this (lineIn_nil _)
  | cons range ranges ih =>
    cases second with
    | nil =>
      have hne := h₁.nonempty range List.mem_cons_self
      have := (h range.startLine).mp (lineIn_cons.mpr (.inl ⟨le_refl _, hne⟩))
      exact absurd this (lineIn_nil _)
    | cons other others =>
      have hne₁ := h₁.nonempty range List.mem_cons_self
      have hne₂ := h₂.nonempty other List.mem_cons_self
      have hstart : range.startLine = other.startLine := by
        have hle := h₂.start_le ((h _).mp (lineIn_cons.mpr (.inl ⟨le_refl _, hne₁⟩)))
        have hge := h₁.start_le ((h _).mpr (lineIn_cons.mpr (.inl ⟨le_refl _, hne₂⟩)))
        omega
      have hend : range.endLine = other.endLine := by
        have hle := h₂.end_le hstart fun line => (h line).mp
        have hge := h₁.end_le hstart.symm fun line => (h line).mpr
        omega
      have heq : range = other := by
        cases range
        cases other
        exact congrArg₂ LineRange.mk hstart hend
      subst heq
      rw [ih h₁.tail h₂.tail fun line => by rw [h₁.lineIn_tail, h₂.lineIn_tail, h line]]

/-- **Valid lists cover the same lines exactly when they normalize alike**. -/
theorem normalizeRanges_eq_iff (h₁ : ∀ range ∈ first, range.Valid)
    (h₂ : ∀ range ∈ second, range.Valid) : normalizeRanges first = normalizeRanges second ↔
      ∀ line, LineIn first line ↔ LineIn second line := by
  constructor
  · intro h line
    rw [← lineIn_normalizeRanges_iff h₁, ← lineIn_normalizeRanges_iff h₂, h]
  · intro h
    refine (normalizeRanges_normal first).unique (normalizeRanges_normal second) fun line => ?_
    rw [lineIn_normalizeRanges_iff h₁, lineIn_normalizeRanges_iff h₂, h line]

/-! ## How a difference is written -/

def Before (left right : LineRange) : Prop := left.endLine < right.startLine

theorem cutRange_inside {endLine : Int} {start : Int} {piece : LineRange}
    (h : piece ∈ cutRange endLine cuts start) :
    start ≤ piece.startLine ∧ piece.endLine ≤ endLine := by
  induction cuts generalizing start with
  | nil =>
    rw [cutRange] at h
    split at h
    · rw [List.mem_singleton.mp h]
      exact ⟨le_refl _, le_refl _⟩
    · cases h
  | cons cut cuts ih =>
    rw [cutRange] at h
    split at h
    · exact ih h
    · rename_i hin
      rcases List.mem_append.mp h with h | h
      · split at h
        · rw [List.mem_singleton.mp h]
          exact ⟨le_refl _, by show cut.startLine - 1 ≤ endLine; omega⟩
        · cases h
      · obtain ⟨hs, he⟩ := ih h
        exact ⟨by omega, he⟩

theorem cutRange_separate {endLine : Int} {start : Int}
    (hne : ∀ cut ∈ cuts, cut.startLine ≤ cut.endLine) :
    (cutRange endLine cuts start).Pairwise Before := by
  induction cuts generalizing start with
  | nil =>
    rw [cutRange]
    split
    · exact List.pairwise_singleton _ _
    · exact List.Pairwise.nil
  | cons cut cuts ih =>
    rw [List.forall_mem_cons] at hne
    rw [cutRange]
    split
    · exact ih hne.2
    · refine List.pairwise_append.mpr ⟨?_, ih hne.2, ?_⟩
      · split
        · exact List.pairwise_singleton _ _
        · exact List.Pairwise.nil
      · -- what comes later starts behind the cut
        intro piece hp later hl
        have := (cutRange_inside hl).1
        split at hp
        · rw [List.mem_singleton.mp hp]
          show cut.startLine - 1 < later.startLine
          omega
        · cases hp

/-- **What a subtraction leaves is sorted and disjoint**. -/
theorem subtractRanges_separate (source removed : List LineRange) :
    (subtractRanges source removed).Pairwise Before := by
  have hnormal := normalizeRanges_normal source
  refine List.pairwise_flatMap.mpr ⟨fun range _ => ?_, ?_⟩
  · exact cutRange_separate (normalizeRanges_normal removed).nonempty
  · refine hnormal.apart.imp fun {left right} hapart piece hp later hl => ?_
    have hend := (cutRange_inside hp).2
    have hstart := (cutRange_inside hl).1
    unfold Apart at hapart
    unfold Before
    omega

/-- **A difference of valid lists**. -/
theorem lineIn_subtractRanges_valid (h₁ : ∀ range ∈ source, range.Valid)
    (h₂ : ∀ range ∈ removed, range.Valid) {line : Int} :
    LineIn (subtractRanges source removed) line ↔ LineIn source line ∧ ¬LineIn removed line := by
  rw [lineIn_subtractRanges, lineIn_normalizeRanges_iff h₁, lineIn_normalizeRanges_iff h₂]

theorem not_lineIn_subtractRanges (h₁ : ∀ range ∈ source, range.Valid)
    (h₂ : ∀ range ∈ removed, range.Valid) {line : Int}
    (h : LineIn (subtractRanges source removed) line) : ¬LineIn removed line :=
  ((lineIn_subtractRanges_valid h₁ h₂).mp h).2

/-! ## When spans touch -/

/-- **Spans intersect exactly when they share a line**, none of them being empty. -/
theorem rangesIntersect_iff (h₁ : ∀ range ∈ first, range.startLine ≤ range.endLine)
    (h₂ : ∀ range ∈ second, range.startLine ≤ range.endLine) :
    rangesIntersect first second = true ↔ ∃ line, LineIn first line ∧ LineIn second line := by
  constructor
  · exact shared_of_rangesIntersect h₁ h₂
  · rintro ⟨line, hf, hs⟩
    exact rangesIntersect_of_shared hf hs

/-! ## Ranges as sets -/

/-- **Line ranges behave as sets of lines**: normalizing keeps the lines and
    writes each set in one sorted, disjoint and non-adjacent way; subtracting
    is set difference, written sorted and disjoint; intersecting is sharing a
    line, between lists without empty spans. -/
theorem ranges_as_sets (first second : List LineRange)
    (h₁ : ∀ range ∈ first, range.Valid) (h₂ : ∀ range ∈ second, range.Valid) :
    (Normal (normalizeRanges first) ∧
      ∀ line, LineIn (normalizeRanges first) line ↔ LineIn first line) ∧
    (normalizeRanges first = normalizeRanges second ↔
      ∀ line, LineIn first line ↔ LineIn second line) ∧
    ((∀ line, LineIn (subtractRanges first second) line ↔
        LineIn first line ∧ ¬LineIn second line) ∧
      (subtractRanges first second).Pairwise Before ∧
      (∀ piece ∈ subtractRanges first second, piece.startLine ≤ piece.endLine) ∧
      ∀ line, ¬(LineIn (subtractRanges first second) line ∧ LineIn second line)) ∧
    ((∀ range ∈ first, range.startLine ≤ range.endLine) →
      (∀ range ∈ second, range.startLine ≤ range.endLine) →
      (rangesIntersect first second = true ↔
        ∃ line, LineIn first line ∧ LineIn second line)) := by
  refine ⟨⟨normalizeRanges_normal first, fun line => lineIn_normalizeRanges_iff h₁⟩,
    normalizeRanges_eq_iff h₁ h₂,
    ⟨fun line => lineIn_subtractRanges_valid h₁ h₂, subtractRanges_separate first second,
      fun piece hp => subtractRanges_proper hp, ?_⟩, rangesIntersect_iff⟩
  rintro line ⟨hleft, hremoved⟩
  exact not_lineIn_subtractRanges h₁ h₂ hleft hremoved

theorem ranges_as_sets_adjacent :
    normalizeRanges [⟨6, 10⟩, ⟨1, 5⟩] = normalizeRanges [⟨1, maxSafeInteger⟩, ⟨2, 3⟩] ↔
      ∀ line, LineIn [⟨6, 10⟩, ⟨1, 5⟩] line ↔ LineIn [⟨1, maxSafeInteger⟩, ⟨2, 3⟩] line :=
  (ranges_as_sets [⟨6, 10⟩, ⟨1, 5⟩] [⟨1, maxSafeInteger⟩, ⟨2, 3⟩] (by decide) (by decide)).2.1

end AgenticGit.Coordinator
