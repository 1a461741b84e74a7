import AgenticGit.Repository.PatchApply
import AgenticGit.Coordinator.Hunks

/- Dividing a patch by withheld lines is exact (`coordinator/src/hunks.ts`).

   A hunk's body is walked with the number of the base line it has reached; what the walk
   records of a body is what the body's edit script does at these lines. A hunk that stays
   clear of a withheld range thus leaves its lines as they stand.

   What is proved:
     1. `bodyScript_leaves` — a body whose walk is clear of a range leaves its lines alone.
     2. `granted_part` — the granted hunks of a patch that applies do, their headers are
        right, and withheld lines stay in one run.
     3. `division_exact_iff` — **a division is exact exactly when its two texts can be read
        back**: no new side starts below zero, and neither text loses a last blank line. -/
namespace AgenticGit.Coordinator
open AgenticGit.Runtime AgenticGit.Shared AgenticGit.Repository AgenticGit.EditScript
  AgenticGit.Interleave

/-! ## The walk over one hunk -/

def firstLine (hunk : ParsedHunk) : Int :=
  if hunk.oldCount = 0 then hunk.oldStart + 1 else hunk.oldStart

theorem patchedLineRanges_hunk (parsed : ParsedPatch) {hunk : ParsedHunk} (h : Shaped hunk) :
    patchedLineRanges (emitPatch { parsed with preamble := [], trailingNewline := false } [hunk]) =
      patchedLineRangesLoop hunk.body (firstLine hunk) true := by
  have hshaped : ∀ other ∈ [hunk], Reading other := by simpa using h.toReading
  have hlines : splitLines (joinLines (emitHunks [hunk] 0)) = emitHunks [hunk] 0 :=
    splitLines_joinLines (emitHunks_unbroken hshaped 0) (emitHunks_ne_nil (by simp) 0)
  obtain ⟨n, hn⟩ := Int.eq_ofNat_of_zero_le
    ((startsAbove_iff hunk 0).mp (startsAbove_first hunk))
  rw [patchedLineRanges, emitPatch_eq, patchText, if_neg Bool.false_ne_true, List.nil_append, hlines,
    emitHunks_cons, hn, patchedLineRangesLoop, hunkHeader_emitted]
  simp only [emitHunks, List.append_nil, Option.getD_some, h.safe, and_self, decide_true]
  rfl

def lineTouches (line : Line) (oldLine : Int) : List LineRange :=
  if Line.startsWith line "-" then [⟨oldLine, oldLine⟩]
  else if Line.startsWith line "+" then [⟨max 1 (oldLine - 1), max 1 oldLine⟩]
  else []

theorem walk_line {line : Line} (h : BodyLine line) (lines : List Line) (oldLine : Int) :
    patchedLineRangesLoop (line :: lines) oldLine true =
      lineTouches line oldLine ++ patchedLineRangesLoop lines
        (if Line.startsWith line "+" then oldLine else oldLine + 1) true := by
  rw [patchedLineRangesLoop, h.header]
  simp only [Bool.not_true, Bool.false_or, h.marker, Bool.false_eq_true, if_false, lineTouches]
  by_cases hminus : Line.startsWith line "-" = true
  · simp [hminus, not_plus_of_minus hminus]
  · by_cases hplus : Line.startsWith line "+" = true
    · simp [hminus, hplus]
    · have hcontext : (Line.startsWith line " " || decide (line.length = 0)) = true := by
        rcases h.known with hspace | hplus' | hminus' | rfl
        · simp [hspace]
        · exact absurd hplus' hplus
        · exact absurd hminus' hminus
        · rfl
      simp only [hminus, hplus, hcontext, Bool.false_eq_true, if_false, if_true, List.nil_append]

theorem walk_insertion {body : List Line} (h : ∀ line ∈ body, BodyLine line)
    (hplus : ∀ line ∈ body, Line.startsWith line "+" = true) (oldLine : Int) :
    patchedLineRangesLoop body oldLine true =
      List.replicate body.length ⟨max 1 (oldLine - 1), max 1 oldLine⟩ := by
  induction body with
  | nil => rfl
  | cons line body ih =>
    rw [List.forall_mem_cons] at h hplus
    have hminus : ¬Line.startsWith line "-" = true := by
      intro hminus
      rw [not_plus_of_minus hminus] at hplus
      cases hplus.1
    rw [walk_line h.1, if_pos hplus.1, ih h.2 hplus.2, lineTouches, if_neg hminus,
      if_pos hplus.1]
    rfl

/-- No range of the walk reaches into the withheld one. -/
def StaysClear (touched : List LineRange) (held : LineRange) : Prop :=
  ∀ range ∈ touched, rangesOverlap range held = false

/-- **A body clear of a range leaves the lines of the range alone.** -/
theorem bodyScript_leaves {body : List Line} (h : ∀ line ∈ body, BodyLine line)
    {held : LineRange} {lo hi : Nat} (hlo : held.startLine ≤ lo + 1) (hhi : hi ≤ held.endLine)
    {before : Nat} (hclear : StaysClear (patchedLineRangesLoop body (before + 1) true) held) :
    Leaves lo hi (bodyScript body) before := by
  induction body generalizing before with
  | nil => trivial
  | cons line body ih =>
    rw [List.forall_mem_cons] at h
    rw [walk_line h.1] at hclear
    have hline : StaysClear (lineTouches line (before + 1)) held :=
      fun range hrange => hclear range (List.mem_append_left _ hrange)
    have hbody : StaysClear (patchedLineRangesLoop body
        (if Line.startsWith line "+" then (before : Int) + 1 else before + 1 + 1) true) held :=
      fun range hrange => hclear range (List.mem_append_right _ hrange)
    rw [bodyScript, List.map_cons, lineAtom]
    unfold lineTouches at hline
    by_cases hminus : Line.startsWith line "-" = true
    · rw [if_pos hminus] at hline ⊢
      rw [if_neg (by rw [not_plus_of_minus hminus]; decide)] at hbody
      have hout := hline _ (List.mem_singleton.mpr rfl)
      simp only [rangesOverlap, Bool.and_eq_false_iff, decide_eq_false_iff_not] at hout
      exact ⟨by omega, @ih h.2 (before + 1) hbody⟩
    · rw [if_neg hminus] at hline ⊢
      by_cases hplus : Line.startsWith line "+" = true
      · rw [if_pos hplus] at hline hbody ⊢
        have hout := hline _ (List.mem_singleton.mpr rfl)
        simp only [rangesOverlap, Bool.and_eq_false_iff, decide_eq_false_iff_not] at hout
        exact ⟨by omega, ih h.2 hbody⟩
      · rw [if_neg hplus] at hbody ⊢
        exact @ih h.2 (before + 1) hbody

/-! ## What the granted hunks leave alone -/

theorem reaches_eq (parsed : ParsedPatch) (withheld : List LineRange) {hunk : ParsedHunk}
    (h : Shaped hunk) : reaches parsed withheld hunk =
      (patchedLineRangesLoop hunk.body (firstLine hunk) true).any fun range =>
        withheld.any fun held => rangesOverlap range held := by
  unfold reaches
  rw [patchedLineRanges_hunk parsed h]

variable {parsed : ParsedPatch} {hunks : List ParsedHunk}

theorem clear_of_reaches {withheld : List LineRange} {hunk : ParsedHunk} (h : Shaped hunk)
    (hreaches : reaches parsed withheld hunk = false) {held : LineRange} (hheld : held ∈ withheld) :
    StaysClear (patchedLineRangesLoop hunk.body (firstLine hunk) true) held := by
  rw [reaches_eq parsed withheld h] at hreaches
  intro range hrange
  have hrange := List.any_eq_false.mp hreaches range hrange
  simpa using List.any_eq_false.mp (Bool.eq_false_iff.mpr hrange) held hheld

theorem firstLine_before {hunk : ParsedHunk} (h : Accepted hunk) :
    firstLine hunk = hunk.before + 1 := by
  have hstart := h.1
  unfold firstLine ParsedHunk.before
  split
  · rfl
  · omega

theorem baseLen_bodyScript {hunk : ParsedHunk} (h : Shaped hunk) :
    baseLen (bodyScript hunk.body) = hunk.oldCount := by
  rw [act_base (act_bodyScript hunk.body), h.length_oldSide]

/-- **Hunks that do not reach into a range leave its lines alone.** -/
theorem patchScript_leaves {withheld : List LineRange} (hs : ∀ hunk ∈ hunks, Shaped hunk)
    (hclear : ∀ hunk ∈ hunks, reaches parsed withheld hunk = false) {held : LineRange}
    (hheld : held ∈ withheld) {lo hi : Nat} (hlo : held.startLine ≤ lo + 1)
    (hhi : hi ≤ held.endLine) {base text : List Line} {position : Nat}
    (h : applyFrom base position hunks = some text) :
    Leaves lo hi (patchScript base.length position hunks) position := by
  induction hunks generalizing position text with
  | nil => exact leaves_keeps _ _ _ _
  | cons hunk hunks ih =>
    rw [List.forall_mem_cons] at hs hclear
    obtain ⟨hfits, rest, hrest, -⟩ := applyFrom_cons h
    have hbody := clear_of_reaches hs.1 hclear.1 hheld
    rw [firstLine_before hfits.1] at hbody
    rw [patchScript, leaves_append, leaves_append, baseLen_keeps, baseLen_bodyScript hs.1,
      Nat.add_sub_of_le hfits.2.1]
    exact ⟨leaves_keeps _ _ _ _, bodyScript_leaves hs.1.body hlo hhi hbody,
      ih hs.2 hclear.2 hrest⟩

theorem reaches_insertion {withheld : List LineRange} {first second : ParsedHunk}
    (h₁ : Shaped first) (h₂ : Shaped second) (ha₁ : Accepted first) (ha₂ : Accepted second)
    (hold₁ : first.oldCount = 0) (hold₂ : second.oldCount = 0)
    (hplace : first.before = second.before) :
    reaches parsed withheld first = reaches parsed withheld second := by
  have hinsertion : ∀ {hunk : ParsedHunk}, Shaped hunk → Accepted hunk → hunk.oldCount = 0 →
      reaches parsed withheld hunk = withheld.any fun held =>
        rangesOverlap ⟨max 1 hunk.before, max 1 (hunk.before + 1)⟩ held := by
    intro hunk hshaped haccepted hold
    rw [reaches_eq parsed withheld hshaped, firstLine_before haccepted]
    obtain ⟨-, line, hline, -⟩ := haccepted
    rw [walk_insertion hshaped.body (hshaped.plus hold), List.any_replicate, Int.add_sub_cancel]
    rw [if_neg (Nat.ne_of_gt (List.length_pos_of_mem hline))]
  rw [hinsertion h₁ ha₁ hold₁, hinsertion h₂ ha₂ hold₂, hplace]

/-! ## An exact division -/

/-- What the granted hunks make of a text that all of the hunks make `text` of. -/
structure GrantedPart (base text : List Line) (withheld : List LineRange)
    (kept held : List ParsedHunk) (part : List Line) : Prop where
  applies : applyHunks base kept = some part
  renumbered : ∀ earlier hunk later, kept = earlier ++ hunk :: later →
    Lands base part kept earlier hunk
  /-- The base lines `lo + 1` to `hi` lie in a withheld range. -/
  unchanged : ∀ range ∈ withheld, ∀ lo hi, lo ≤ hi → hi ≤ base.length →
    range.startLine ≤ lo + 1 → hi ≤ range.endLine →
    KeepsIn (patchScript base.length 0 kept) base part lo hi
  together : applyHunks base (together kept held) = some text

/-- The two texts are the patch divided: each of its hunks is in one of them, and for every
text the patch applies to, the granted one does its part and the other the rest. -/
def DividedExactly (parsed : ParsedPatch) (withheld : List LineRange)
    (granted deferred : String) : Prop :=
  ∃ kept held, parseUnifiedPatch granted = some kept ∧ parseUnifiedPatch deferred = some held ∧
    granted = emitPatch kept kept.hunks ∧ deferred = emitPatch held held.hunks ∧
    Interleaved kept.hunks held.hunks parsed.hunks ∧
    ∀ base text, applyHunks base parsed.hunks = some text →
      ∃ part, GrantedPart base text withheld kept.hunks held.hunks part

theorem granted_part (withheld : List LineRange) (hs : ∀ hunk ∈ parsed.hunks, Shaped hunk)
    {base text : List Line} (h : applyHunks base parsed.hunks = some text) :
    ∃ part, GrantedPart base text withheld
      (parsed.hunks.filter fun hunk => !reaches parsed withheld hunk)
      (parsed.hunks.filter fun hunk => reaches parsed withheld hunk) part := by
  have hkept : ∀ hunk ∈ parsed.hunks.filter (fun hunk => !reaches parsed withheld hunk),
      Shaped hunk := fun hunk hhunk => hs hunk (List.mem_filter.mp hhunk).1
  have hclear : ∀ hunk ∈ parsed.hunks.filter (fun hunk => !reaches parsed withheld hunk),
      reaches parsed withheld hunk = false := by
    intro hunk hhunk
    simpa using (List.mem_filter.mp hhunk).2
  obtain ⟨part, hpart⟩ := applyHunks_sublist List.filter_sublist h
  have hscript := applyHunks_script hkept hpart
  refine ⟨part, hpart, fun earlier hunk later heq => applyHunks_lands hkept hpart heq, ?_, ?_⟩
  · intro range hrange lo hi hle hlength hlo hhi
    have hleaves := patchScript_leaves hkept hclear hrange hlo hhi hpart
    have hrun := keepsRun_of_leaves hleaves (Nat.zero_le _) hle
      (by rw [act_base hscript, Nat.zero_add]; exact hlength)
    exact hrun.act hle hlength hscript
  · have htogether := @applyHunks_together _ _ _ (fun hunk => !reaches parsed withheld hunk) h
      fun first hfirst second hsecond ha₁ ha₂ hold₁ hold₂ hplace => by
        rw [reaches_insertion (hs first hfirst) (hs second hsecond) ha₁ ha₂ hold₁ hold₂ hplace]
    simpa only [Bool.not_not] using htogether

/-- A division for a patch is exact, and the patch is read back from its own text. -/
def ExactDivision (patch : String) (withheld : List LineRange) : Prop :=
  ∀ parsed, parseUnifiedPatch patch = some parsed →
    (∃ other, parseUnifiedPatch (emitPatch parsed parsed.hunks) = some other ∧
      other.hunks = parsed.hunks) ∧
    ∀ division granted deferred, dividePatchByRanges patch withheld = some division →
      division.granted = some granted → division.deferred = some deferred →
      DividedExactly parsed withheld granted deferred

/-- No selection of the hunks starts a new side below zero or ends in a blank line of a body
when the patch has no last line break. -/
def Divisible (patch : String) (withheld : List LineRange) : Prop :=
  ∀ parsed, parseUnifiedPatch patch = some parsed →
    Numbered parsed.hunks 0 ∧
    let kept := parsed.hunks.filter fun hunk => !reaches parsed withheld hunk
    let held := parsed.hunks.filter fun hunk => reaches parsed withheld hunk
    (withheld ≠ [] → kept ≠ [] → held ≠ [] →
      Emittable parsed kept ∧ Emittable parsed held)

theorem emitted_of_ne_nil (parsed : ParsedPatch) (h : hunks ≠ []) :
    emitted parsed hunks = some (emitPatch parsed hunks) := by
  unfold emitted
  rw [if_neg (by simpa using h)]

theorem dividedExactly_iff {patch : String} (withheld : List LineRange)
    (hparse : parseUnifiedPatch patch = some parsed)
    (hkept : (parsed.hunks.filter fun hunk => !reaches parsed withheld hunk) ≠ [])
    (hheld : (parsed.hunks.filter fun hunk => reaches parsed withheld hunk) ≠ []) :
    DividedExactly parsed withheld
        (emitPatch parsed (parsed.hunks.filter fun hunk => !reaches parsed withheld hunk))
        (emitPatch parsed (parsed.hunks.filter fun hunk => reaches parsed withheld hunk)) ↔
      Emittable parsed (parsed.hunks.filter fun hunk => !reaches parsed withheld hunk) ∧
        Emittable parsed (parsed.hunks.filter fun hunk => reaches parsed withheld hunk) := by
  obtain ⟨hshaped, -, -⟩ := parseUnifiedPatch_shaped hparse
  have hs₁ : ∀ hunk ∈ parsed.hunks.filter (fun hunk => !reaches parsed withheld hunk),
      Shaped hunk := fun hunk hhunk => hshaped.hunks hunk (List.mem_filter.mp hhunk).1
  have hs₂ : ∀ hunk ∈ parsed.hunks.filter (fun hunk => reaches parsed withheld hunk),
      Shaped hunk := fun hunk hhunk => hshaped.hunks hunk (List.mem_filter.mp hhunk).1
  constructor
  · rintro ⟨kept, held, hgranted, hdeferred, -⟩
    constructor
    · by_contra he
      rw [parse_emitPatch_none hshaped.preamble hs₁ hkept he] at hgranted
      cases hgranted
    · by_contra he
      rw [parse_emitPatch_none hshaped.preamble hs₂ hheld he] at hdeferred
      cases hdeferred
  · rintro ⟨he₁, he₂⟩
    have hboth := interleaved_filter (fun hunk => !reaches parsed withheld hunk) parsed.hunks
    simp only [Bool.not_not] at hboth
    exact ⟨_, _, parse_emitPatch hshaped.preamble hs₁ hkept he₁,
      parse_emitPatch hshaped.preamble hs₂ hheld he₂, rfl, rfl, hboth,
      fun base text h => granted_part withheld hshaped.hunks h⟩

/-- **A patch is divided exactly when its parts can be read back.** -/
theorem division_exact_iff (patch : String) (withheld : List LineRange) :
    ExactDivision patch withheld ↔ Divisible patch withheld := by
  constructor
  · intro h parsed hparse
    obtain ⟨hshaped, hne, hended⟩ := parseUnifiedPatch_shaped hparse
    obtain ⟨hwhole, hdivides⟩ := h parsed hparse
    refine ⟨((parse_emitPatch_iff hshaped.preamble hshaped.hunks hne).mp hwhole).numbered, ?_⟩
    intro kept held hwithheld hkept hheld
    have hdivision : dividePatchByRanges patch withheld =
        some ⟨emitted parsed kept, emitted parsed held, kept.length, held.length⟩ := by
      unfold dividePatchByRanges
      rw [if_neg (by simpa using hwithheld), hparse]
      rfl
    exact (dividedExactly_iff withheld hparse hkept hheld).mp (hdivides _ _ _ hdivision
      (emitted_of_ne_nil parsed hkept) (emitted_of_ne_nil parsed hheld))
  · intro h parsed hparse
    obtain ⟨hshaped, hne, hended⟩ := parseUnifiedPatch_shaped hparse
    obtain ⟨hnumbered, hparts⟩ := h parsed hparse
    refine ⟨(parse_emitPatch_iff hshaped.preamble hshaped.hunks hne).mpr ⟨hnumbered, hended⟩, ?_⟩
    intro division granted deferred hdivision hg hd
    unfold dividePatchByRanges at hdivision
    split at hdivision
    · cases hdivision
    · rename_i hwithheld
      rw [hparse] at hdivision
      obtain rfl := Option.some.inj hdivision
      obtain ⟨hkept, rfl⟩ := emitted_eq_some hg
      obtain ⟨hheld, rfl⟩ := emitted_eq_some hd
      exact (dividedExactly_iff withheld hparse hkept hheld).mpr
        (hparts (by simpa using hwithheld) hkept hheld)

/-- A patch without a last line break, whose granted hunk ends in a blank line: the line is
taken for the break, and the granted text is no patch. -/
theorem blank_line_lost :
    ¬ExactDivision "@@ -1,2 +1,2 @@\n-a\n+b\n\n@@ -10,1 +10,1 @@\n-c\n+d" [⟨10, 10⟩] := by
  intro h
  have hparse : parseUnifiedPatch "@@ -1,2 +1,2 @@\n-a\n+b\n\n@@ -10,1 +10,1 @@\n-c\n+d" =
      some ⟨[], [⟨1, 2, 2, [], ["-a".toList, "+b".toList, []]⟩,
        ⟨10, 1, 1, [], ["-c".toList, "+d".toList]⟩], false⟩ := by decide
  have hdivide : dividePatchByRanges
      "@@ -1,2 +1,2 @@\n-a\n+b\n\n@@ -10,1 +10,1 @@\n-c\n+d" [⟨10, 10⟩] =
      some ⟨some "@@ -1,2 +1,2 @@\n-a\n+b\n", some "@@ -10,1 +10,1 @@\n-c\n+d", 1, 1⟩ := by
    decide
  have hnone : parseUnifiedPatch "@@ -1,2 +1,2 @@\n-a\n+b\n" = none := by decide
  obtain ⟨kept, held, hkept, -⟩ := (h _ hparse).2 _ _ _ hdivide rfl rfl
  rw [hnone] at hkept
  cases hkept

end AgenticGit.Coordinator
