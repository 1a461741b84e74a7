import AgenticGit.Shared.Plan

/- Arithmetic on the line spans an ownership claim is made of: `ranges.ts`,
   function by function, and the sets of lines the functions compute.

   A list of ranges stands for the lines in any of them (`LineIn`). The claims
   of a plan are 1-based spans between safe integers (`LineRange.Valid`); on
   these `normalizeRanges` changes how a set is written and not the set
   (`lineIn_normalizeRanges_iff`), and `subtractRanges` is set difference
   (`lineIn_subtractRanges`). -/
namespace AgenticGit.Coordinator
open AgenticGit.Runtime AgenticGit.Shared

def LineIn (ranges : List LineRange) (line : Int) : Prop := ∃ range ∈ ranges, range.Mem line

/-- The claim a plan makes when it names a file outright. -/
def wholeFile : LineRange := ⟨1, maxSafeInteger⟩

def rangesOverlap (first second : LineRange) : Bool :=
  first.startLine ≤ second.endLine && second.startLine ≤ first.endLine

/-! ## normalizeRanges -/

/-- The filter of `normalizeRanges`. -/
def usable (range : LineRange) : Bool :=
  IsSafeInteger range.startLine && IsSafeInteger range.endLine &&
    range.startLine ≤ range.endLine

def clamp (range : LineRange) : LineRange := ⟨max 1 range.startLine, max 1 range.endLine⟩

/-- The comparator of `normalizeRanges`: by start, then by end. -/
def startsBefore (left right : LineRange) : Prop :=
  left.startLine < right.startLine ∨
    (left.startLine = right.startLine ∧ left.endLine ≤ right.endLine)

instance : DecidableRel startsBefore := fun left right =>
  inferInstanceAs (Decidable (left.startLine < right.startLine ∨
    (left.startLine = right.startLine ∧ left.endLine ≤ right.endLine)))

/-- The loop of `normalizeRanges`, from the last merged span on. -/
def mergeRanges (last : LineRange) : List LineRange → List LineRange
  | [] => [last]
  | range :: ranges =>
    if range.startLine ≤ last.endLine + 1 then
      mergeRanges ⟨last.startLine, max last.endLine range.endLine⟩ ranges
    else last :: mergeRanges range ranges

/-- Sorts, drops empty spans, and merges any that touch or overlap. -/
def normalizeRanges (ranges : List LineRange) : List LineRange :=
  match ((ranges.filter usable).map clamp).insertionSort startsBefore with
  | [] => []
  | range :: ranges => mergeRanges range ranges

/-- Whether any span on one side touches any span on the other. -/
def rangesIntersect (first second : List LineRange) : Bool :=
  first.any fun left => second.any fun right => rangesOverlap left right

/-! ## subtractRanges -/

/-- The loop over the cuts, for what is left of one span from `start` on. -/
def cutRange (endLine : Int) : List LineRange → Int → List LineRange
  | [], start => if start ≤ endLine then [⟨start, endLine⟩] else []
  | cut :: cuts, start =>
    if cut.endLine < start ∨ cut.startLine > endLine then cutRange endLine cuts start
    else
      (if cut.startLine > start then [⟨start, cut.startLine - 1⟩] else []) ++
        cutRange endLine cuts (max start (cut.endLine + 1))

/-- What is left of one set of spans once another is taken out of it. -/
def subtractRanges (source removed : List LineRange) : List LineRange :=
  (normalizeRanges source).flatMap fun range =>
    cutRange range.endLine (normalizeRanges removed) range.startLine

/-! ## Lines -/

@[simp] theorem lineIn_nil (line : Int) : ¬LineIn [] line := by
  simp [LineIn]

theorem lineIn_cons {range : LineRange} {ranges : List LineRange} {line : Int} :
    LineIn (range :: ranges) line ↔ range.Mem line ∨ LineIn ranges line := by
  simp [LineIn]

variable {first second : List LineRange} {source removed : List LineRange} {piece : LineRange}

theorem lineIn_append {line : Int} :
    LineIn (first ++ second) line ↔ LineIn first line ∨ LineIn second line := by
  simp only [LineIn, List.mem_append, or_and_right, exists_or]

theorem rangesIntersect_of_shared {line : Int} (h₁ : LineIn first line) (h₂ : LineIn second line) :
    rangesIntersect first second = true := by
  obtain ⟨left, hl, hl₁, hl₂⟩ := h₁
  obtain ⟨right, hr, hr₁, hr₂⟩ := h₂
  simp only [rangesIntersect, List.any_eq_true, rangesOverlap, Bool.and_eq_true,
    decide_eq_true_eq]
  exact ⟨left, hl, right, hr, by omega, by omega⟩

theorem shared_of_rangesIntersect (h₁ : ∀ range ∈ first, range.startLine ≤ range.endLine)
    (h₂ : ∀ range ∈ second, range.startLine ≤ range.endLine)
    (h : rangesIntersect first second = true) : ∃ line, LineIn first line ∧ LineIn second line := by
  simp only [rangesIntersect, List.any_eq_true, rangesOverlap, Bool.and_eq_true,
    decide_eq_true_eq] at h
  obtain ⟨left, hl, right, hr, hlr, hrl⟩ := h
  have hl' := h₁ left hl
  have hr' := h₂ right hr
  refine ⟨max left.startLine right.startLine, ⟨left, hl, ?_⟩, ⟨right, hr, ?_⟩⟩
  · exact ⟨by omega, by omega⟩
  · exact ⟨by omega, by omega⟩

/-! ## What normalizing keeps -/

/-- The order the spans of a normalized set come in: each ends at least one
line before the next starts. -/
def Apart (left right : LineRange) : Prop := left.endLine + 1 < right.startLine

/-- A set written the way `normalizeRanges` writes it. -/
structure Normal (ranges : List LineRange) : Prop where
  apart : ranges.Pairwise Apart
  nonempty : ∀ range ∈ ranges, range.startLine ≤ range.endLine
  start_pos : ∀ range ∈ ranges, 1 ≤ range.startLine

theorem startsBefore_total (left right : LineRange) :
    startsBefore left right ∨ startsBefore right left := by
  unfold startsBefore
  omega

theorem startsBefore_trans {first second third : LineRange} (h₁ : startsBefore first second)
    (h₂ : startsBefore second third) : startsBefore first third := by
  unfold startsBefore at *
  omega

theorem lineIn_mergeRanges {last : LineRange} {ranges : List LineRange} {line : Int}
    (hlast : last.startLine ≤ last.endLine)
    (hne : ∀ range ∈ ranges, range.startLine ≤ range.endLine)
    (hs : (last :: ranges).Pairwise startsBefore) :
    LineIn (mergeRanges last ranges) line ↔ LineIn (last :: ranges) line := by
  induction ranges generalizing last with
  | nil => rfl
  | cons range ranges ih =>
    rw [List.forall_mem_cons] at hne
    rw [List.pairwise_cons, List.pairwise_cons] at hs
    obtain ⟨hlast', hrange, hrest⟩ := hs
    have hr := hlast' range List.mem_cons_self
    unfold startsBefore at hr
    rw [mergeRanges]
    split
    · have hmerged : (⟨last.startLine, max last.endLine range.endLine⟩ :: ranges).Pairwise
          startsBefore := by
        refine List.pairwise_cons.mpr ⟨fun other ho => ?_, hrest⟩
        have h₁ := hlast' other (List.mem_cons_of_mem _ ho)
        have h₂ := hrange other ho
        unfold startsBefore at h₁ h₂ ⊢
        dsimp only
        omega
      rw [ih (by dsimp only; omega) hne.2 hmerged, lineIn_cons, lineIn_cons, lineIn_cons]
      simp only [LineRange.Mem]
      constructor
      · rintro (h | h)
        · by_cases hle : line ≤ last.endLine
          · exact .inl ⟨h.1, hle⟩
          · exact .inr (.inl ⟨by omega, by omega⟩)
        · exact .inr (.inr h)
      · rintro (h | h | h)
        · exact .inl ⟨h.1, by omega⟩
        · exact .inl ⟨by omega, by omega⟩
        · exact .inr h
    · rw [lineIn_cons, ih hne.1 hne.2 (List.pairwise_cons.mpr ⟨hrange, hrest⟩), ← lineIn_cons]

theorem mergeRanges_normal {last : LineRange} {ranges : List LineRange}
    (hlast : last.startLine ≤ last.endLine) (hpos : 1 ≤ last.startLine)
    (hne : ∀ range ∈ ranges, range.startLine ≤ range.endLine)
    (hs : (last :: ranges).Pairwise startsBefore) :
    Normal (mergeRanges last ranges) ∧
      ∀ range ∈ mergeRanges last ranges, last.startLine ≤ range.startLine := by
  induction ranges generalizing last with
  | nil =>
    refine ⟨⟨List.pairwise_singleton _ _, ?_, ?_⟩, ?_⟩ <;>
      · intro range hr
        obtain rfl := List.mem_singleton.mp hr
        omega
  | cons range ranges ih =>
    rw [List.forall_mem_cons] at hne
    rw [List.pairwise_cons, List.pairwise_cons] at hs
    obtain ⟨hlast', hrange, hrest⟩ := hs
    have hr := hlast' range List.mem_cons_self
    unfold startsBefore at hr
    rw [mergeRanges]
    split
    · refine ih (by dsimp only; omega) hpos hne.2
        (List.pairwise_cons.mpr ⟨fun other ho => ?_, hrest⟩)
      have h₁ := hlast' other (List.mem_cons_of_mem _ ho)
      have h₂ := hrange other ho
      unfold startsBefore at h₁ h₂ ⊢
      dsimp only
      omega
    · obtain ⟨hn, hle⟩ := ih hne.1 (by omega) hne.2 (List.pairwise_cons.mpr ⟨hrange, hrest⟩)
      refine ⟨⟨List.pairwise_cons.mpr ⟨fun other ho => ?_, hn.apart⟩,
        List.forall_mem_cons.mpr ⟨hlast, hn.nonempty⟩,
        List.forall_mem_cons.mpr ⟨hpos, hn.start_pos⟩⟩, ?_⟩
      · have := hle other ho
        unfold Apart
        omega
      · intro other ho
        rcases List.mem_cons.mp ho with rfl | ho
        · exact Int.le_refl _
        · have := hle other ho
          omega

theorem mem_sorted_iff {ranges : List LineRange} {range : LineRange} :
    range ∈ ((ranges.filter usable).map clamp).insertionSort startsBefore ↔
      ∃ raw ∈ ranges, usable raw = true ∧ clamp raw = range := by
  simp only [List.mem_insertionSort, List.mem_map, List.mem_filter, and_assoc]

theorem sorted_pairwise (ranges : List LineRange) :
    (((ranges.filter usable).map clamp).insertionSort startsBefore).Pairwise startsBefore :=
  haveI : Std.Total startsBefore := ⟨startsBefore_total⟩
  haveI : IsTrans LineRange startsBefore := ⟨fun _ _ _ => startsBefore_trans⟩
  List.pairwise_insertionSort startsBefore _

theorem sorted_range {ranges : List LineRange} {range : LineRange}
    (h : range ∈ ((ranges.filter usable).map clamp).insertionSort startsBefore) :
    range.startLine ≤ range.endLine ∧ 1 ≤ range.startLine := by
  obtain ⟨raw, -, hu, rfl⟩ := mem_sorted_iff.mp h
  simp only [usable, Bool.and_eq_true, decide_eq_true_eq] at hu
  simp only [clamp]
  omega

/-- **What `normalizeRanges` keeps**: the lines of the usable spans, moved to
line 1 where they start before it. -/
theorem lineIn_normalizeRanges {ranges : List LineRange} {line : Int} :
    LineIn (normalizeRanges ranges) line ↔
      ∃ raw ∈ ranges, usable raw = true ∧ (clamp raw).Mem line := by
  have key : LineIn (normalizeRanges ranges) line ↔
      LineIn (((ranges.filter usable).map clamp).insertionSort startsBefore) line := by
    have hp := sorted_pairwise ranges
    have hr := @sorted_range ranges
    unfold normalizeRanges
    split
    · rename_i he
      rw [he]
    · rename_i range rest he
      rw [he] at hp hr ⊢
      exact lineIn_mergeRanges (hr List.mem_cons_self).1
        (fun other ho => (hr (List.mem_cons_of_mem _ ho)).1) hp
  rw [key]
  constructor
  · rintro ⟨range, hr, hm⟩
    obtain ⟨raw, hraw, hu, rfl⟩ := mem_sorted_iff.mp hr
    exact ⟨raw, hraw, hu, hm⟩
  · rintro ⟨raw, hraw, hu, hm⟩
    exact ⟨clamp raw, mem_sorted_iff.mpr ⟨raw, hraw, hu, rfl⟩, hm⟩

theorem normalizeRanges_normal (ranges : List LineRange) : Normal (normalizeRanges ranges) := by
  have hp := sorted_pairwise ranges
  have hr := @sorted_range ranges
  unfold normalizeRanges
  split
  · exact ⟨List.Pairwise.nil, by simp, by simp⟩
  · rename_i range rest he
    rw [he] at hp hr
    exact (mergeRanges_normal (hr List.mem_cons_self).1 (hr List.mem_cons_self).2
      (fun other ho => (hr (List.mem_cons_of_mem _ ho)).1) hp).1

theorem lineIn_of_normalizeRanges {ranges : List LineRange} {line : Int}
    (hpos : ∀ range ∈ ranges, 1 ≤ range.startLine) (h : LineIn (normalizeRanges ranges) line) :
    LineIn ranges line := by
  obtain ⟨raw, hraw, hu, hm⟩ := lineIn_normalizeRanges.mp h
  have hp := hpos raw hraw
  simp only [usable, Bool.and_eq_true, decide_eq_true_eq] at hu
  simp only [clamp, LineRange.Mem] at hm
  exact ⟨raw, hraw, by omega, by omega⟩

/-- **Normalizing valid spans changes how the set is written, not the set.** -/
theorem lineIn_normalizeRanges_iff {ranges : List LineRange} {line : Int}
    (hv : ∀ range ∈ ranges, range.Valid) :
    LineIn (normalizeRanges ranges) line ↔ LineIn ranges line := by
  constructor
  · exact lineIn_of_normalizeRanges fun range hr => (hv range hr).start_pos
  · rintro ⟨range, hr, h₁, h₂⟩
    obtain ⟨hp, hs, he⟩ := hv range hr
    refine lineIn_normalizeRanges.mpr ⟨range, hr, ?_, ?_⟩
    · simp only [usable, Bool.and_eq_true, decide_eq_true_eq]
      exact ⟨⟨hs, he⟩, by omega⟩
    · simp only [clamp, LineRange.Mem]
      omega

theorem normalizeRanges_valid {ranges : List LineRange} {range : LineRange}
    (h : range ∈ normalizeRanges ranges) : range.Valid := by
  have hn := (normalizeRanges_normal ranges).nonempty range h
  have hbounds {line : Int} (hm : range.Mem line) : 1 ≤ line ∧ line ≤ maxSafeInteger := by
    obtain ⟨raw, -, hu, hm⟩ := lineIn_normalizeRanges.mp ⟨range, h, hm⟩
    simp only [usable, Bool.and_eq_true, decide_eq_true_eq] at hu
    have hsafe := hu.1.2.2
    have hmax : (1 : Int) ≤ maxSafeInteger := by decide
    simp only [clamp, LineRange.Mem] at hm
    omega
  have hstart := hbounds ⟨le_refl _, hn⟩
  have hend := hbounds ⟨hn, le_refl _⟩
  have hmin : -maxSafeInteger ≤ 1 := by decide
  exact ⟨hstart.1, ⟨by omega, hstart.2⟩, ⟨by omega, hend.2⟩⟩

theorem lineIn_normalizeRanges_twice {ranges : List LineRange} {line : Int} :
    LineIn (normalizeRanges (normalizeRanges ranges)) line ↔
      LineIn (normalizeRanges ranges) line :=
  lineIn_normalizeRanges_iff fun _ => normalizeRanges_valid

/-! ## What subtracting leaves -/

theorem lineIn_cutRange {endLine : Int} {cuts : List LineRange} {start line : Int}
    (hn : cuts.Pairwise Apart) (hne : ∀ cut ∈ cuts, cut.startLine ≤ cut.endLine) :
    LineIn (cutRange endLine cuts start) line ↔
      (start ≤ line ∧ line ≤ endLine) ∧ ¬LineIn cuts line := by
  induction cuts generalizing start with
  | nil =>
    rw [cutRange]
    split
    · simp [lineIn_cons, LineRange.Mem]
    · simp only [lineIn_nil, not_false_iff, and_true, false_iff]
      omega
  | cons cut cuts ih =>
    rw [List.pairwise_cons] at hn
    rw [List.forall_mem_cons] at hne
    rw [cutRange, lineIn_cons]
    split
    · rename_i hout
      rw [ih hn.2 hne.2]
      simp only [LineRange.Mem, not_or]
      constructor
      · rintro ⟨hl, hc⟩
        exact ⟨hl, by omega, hc⟩
      · rintro ⟨hl, -, hc⟩
        exact ⟨hl, hc⟩
    · rename_i hin
      rw [lineIn_append, ih hn.2 hne.2]
      have hhead : LineIn (if cut.startLine > start then [⟨start, cut.startLine - 1⟩] else [])
          line ↔ start ≤ line ∧ line < cut.startLine := by
        split
        · simp only [lineIn_cons, lineIn_nil, or_false, LineRange.Mem]
          omega
        · simp only [lineIn_nil, false_iff]
          omega
      rw [hhead]
      -- the later cuts all start after this one ends
      have hafter : LineIn cuts line → cut.endLine < line := by
        rintro ⟨other, ho, h₁, -⟩
        have := hn.1 other ho
        unfold Apart at this
        omega
      simp only [LineRange.Mem, not_or]
      constructor
      · rintro (h | ⟨h, hc⟩)
        · exact ⟨by omega, by omega, fun hl => by have := hafter hl; omega⟩
        · exact ⟨by omega, by omega, hc⟩
      · rintro ⟨hl, hc, hr⟩
        by_cases hb : line < cut.startLine
        · exact .inl (by omega)
        · exact .inr ⟨by omega, hr⟩

/-- **`subtractRanges` is set difference.** -/
theorem lineIn_subtractRanges {line : Int} : LineIn (subtractRanges source removed) line ↔
      LineIn (normalizeRanges source) line ∧ ¬LineIn (normalizeRanges removed) line := by
  obtain ⟨ha, hne, -⟩ := normalizeRanges_normal removed
  have hcut := fun range : LineRange =>
    @lineIn_cutRange range.endLine (normalizeRanges removed) range.startLine line ha hne
  constructor
  · rintro ⟨piece, hp, hm⟩
    obtain ⟨range, hr, hp⟩ := List.mem_flatMap.mp hp
    obtain ⟨hin, hout⟩ := (hcut range).mp ⟨piece, hp, hm⟩
    exact ⟨⟨range, hr, hin⟩, hout⟩
  · rintro ⟨⟨range, hr, hin⟩, hout⟩
    obtain ⟨piece, hp, hm⟩ := (hcut range).mpr ⟨hin, hout⟩
    exact ⟨piece, List.mem_flatMap.mpr ⟨range, hr, hp⟩, hm⟩

theorem cutRange_proper {endLine : Int} {cuts : List LineRange} {start : Int}
    (h : piece ∈ cutRange endLine cuts start) : piece.startLine ≤ piece.endLine := by
  induction cuts generalizing start with
  | nil =>
    rw [cutRange] at h
    split at h
    · rw [List.mem_singleton.mp h]
      assumption
    · cases h
  | cons cut cuts ih =>
    rw [cutRange] at h
    split at h
    · exact ih h
    · rcases List.mem_append.mp h with h | h
      · split at h
        · rw [List.mem_singleton.mp h]
          show start ≤ cut.startLine - 1
          omega
        · cases h
      · exact ih h

theorem subtractRanges_proper (h : piece ∈ subtractRanges source removed) :
    piece.startLine ≤ piece.endLine := by
  obtain ⟨range, -, hp⟩ := List.mem_flatMap.mp h
  exact cutRange_proper hp

theorem subtractRanges_pos (h : piece ∈ subtractRanges source removed) : 1 ≤ piece.startLine := by
  have hline : LineIn (subtractRanges source removed) piece.startLine :=
    ⟨piece, h, le_refl _, subtractRanges_proper h⟩
  obtain ⟨range, hr, hm, -⟩ := (lineIn_subtractRanges.mp hline).1
  have hpos := (normalizeRanges_normal source).start_pos range hr
  omega

end AgenticGit.Coordinator
