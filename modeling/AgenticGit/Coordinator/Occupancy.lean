import Mathlib.Data.List.MinMax
import AgenticGit.Coordinator.LineSets
import AgenticGit.Coordinator.Objectives

/- The lines a plan occupies inside one file: the functions `plan-admission.ts`
   reads plans with.

   What is proved:
     1. `occupiedSpans_declared` — a plan occupies the whole of a file it names.
     2. `declaredSpans_own` — **the reading by declarations covers the lines the
        index places the plan's own symbols at.**
     3. `declaredSpans_within` — no reading reaches past the last line the index
        accounts for.
     4. `zones_partition` — **the innermost declarations and the insertion zones
        divide the indexed part of a file between them.**

   Correspondence (TypeScript ↔ Lean):
     `undefined`, the whole file        ↔ `none`
     a set or map built from a list     ↔ the list, each value once
     `xs.sort((a, b) => a.localeCompare(b))` ↔ `sortByLocale`, as stable
     `other !== range`                  ↔ nothing: a range that lies strictly inside
       another is not that range -/
namespace AgenticGit.Coordinator
open AgenticGit.Runtime AgenticGit.Shared

/-! ## occupiedSpans -/

section

variable [TextRuntime]

/-- The spans of the symbols that reach into a file through grounding; `none` when
there are none, or one cannot be placed. -/
def referentSpans (grounding : PlanGrounding) (file : String)
    (locate : String → Option (List NamedRange)) : Option (List NamedRange) :=
  let reaching := unique ((grounding.symbolReferents.filter fun entry => file ∈ entry.files).map
    fun entry => toLowerCase entry.resolved)
  if reaching.length = 0 then none
  else
    match locate file with
    | none => none
    | some ranges =>
      let found := ranges.filter fun range => toLowerCase range.name ∈ reaching
      let placed := unique (found.map fun range => toLowerCase range.name)
      if placed.length < reaching.length then none else some found

/-- The named spans a plan occupies inside one file, or `none` for all of it. -/
def occupiedSpans (plan : AgentPlan) (file : String) (locate : SymbolIndex) :
    Except PathError (Option (List NamedRange)) :=
  match locate with
  | none => .ok none
  | some locate => do
    let declared ← uniqueRepositoryPaths plan.expectedFiles
    if file ∈ declared then return none
    match plan.grounding with
    | none => return none
    | some grounding =>
      if grounding.fileReferents.any fun entry => entry.resolved = file then return none
      else return referentSpans grounding file locate

/-! ## insertionZones -/

/-- The last line the index accounts for, 0 when there is none. -/
def knownEnd (all : List NamedRange) : Int := all.foldl (fun last range => max last range.endLine) 0

def leafRanges (all : List NamedRange) : List NamedRange :=
  all.filter fun range => !all.any fun other =>
    range.startLine ≤ other.startLine && other.endLine ≤ range.endLine &&
      (range.startLine < other.startLine || other.endLine < range.endLine)

/-- Where a declaration that does not exist yet could be written. -/
def insertionZones (all : List NamedRange) : List LineRange :=
  let known := knownEnd all
  if known = 0 then []
  else subtractRanges [⟨1, known⟩] ((leafRanges all).map NamedRange.toLineRange)

/-- Whether what a holder leaves of a file is a share of it or only its tail. -/
def leavesGround (placed : List NamedRange) (withheld : List LineRange) : Bool :=
  let known := knownEnd placed
  0 < known && 0 < (subtractRanges [⟨1, known⟩] withheld).length

/-! ## declaredSpans -/

/-- The insertion zones of a file, under the name of what is to be written there. -/
def zoneSpans (all : List NamedRange) (name : String) : List NamedRange :=
  (insertionZones all).map fun zone => ⟨zone, name⟩

/-- The names a declared symbol stands for: its referents, or itself. -/
def standsFor (plan : AgentPlan) (symbol : String) : List String :=
  let referents := (plan.grounding.map PlanGrounding.symbolReferents).getD []
  let resolved := (referents.filter fun entry => entry.declared = symbol).map fun entry =>
    toLowerCase entry.resolved
  if resolved.length = 0 then [toLowerCase symbol] else resolved

/-- Where the agent did not say, its objective is asked instead. -/
def guessedSpans [Lemmatizer] (plan : AgentPlan) (all : List NamedRange) :
    Option (List NamedRange) :=
  let complete := completeAgentPlan plan
  match likelySymbolsIn (plan.objective ++ " " ++ complete.intent) all with
  | [] => none
  | first :: others =>
    let wantedNames := (first :: others).map toLowerCase
    some (all.filter (fun range => toLowerCase range.name ∈ wantedNames) ++ zoneSpans all first)

/-- The spans of the symbols a plan named in one file of `files`. -/
def namedSpans (plan : AgentPlan) (files : List String) (file : String)
    (locate : String → Option (List NamedRange)) : Option (List NamedRange) :=
  let claimed := plan.ownSymbols
  -- a file the index cannot read contributes no placements
  let placed := files.flatMap fun declared =>
    ((locate declared).getD []).map fun range => toLowerCase range.name
  let occupies := claimed.flatMap (standsFor plan)
  let all := (locate file).getD []
  let own := all.filter fun range => toLowerCase range.name ∈ occupies
  -- declarations the index cannot place are functions the plan is going to write
  match claimed.filter fun symbol => !(standsFor plan symbol).all fun name => name ∈ placed with
  | [] => some own
  | first :: _ =>
    if (insertionZones all).length = 0 then none
    else some (own ++ zoneSpans all first)

/-- The lines a plan's own declared symbols occupy inside a file it declared. -/
def declaredSpans [Lemmatizer] (plan : AgentPlan) (file : String)
    (locate : String → Option (List NamedRange)) : Except PathError (Option (List NamedRange)) := do
  let files ← uniqueRepositoryPaths (completeAgentPlan plan).expectedFiles
  if file ∉ files then return none
  else if plan.ownSymbols.length = 0 then return guessedSpans plan ((locate file).getD [])
  else return namedSpans plan files file locate

/-! ## What a holder's spans withhold -/

/-- Whether a holder named this symbol itself, rather than inheriting it. -/
def holdsSymbolItself (resourceType : ResourceType) (plan : AgentPlan) (resourceId : String) :
    Bool :=
  match resourceType, plan.declared.bind PlanDeclarations.symbols with
  | .symbol, some symbols => symbols.any fun name => toLowerCase name = toLowerCase resourceId
  | _, _ => true

/-- `xs.sort((a, b) => key(a).localeCompare(key(b)))`. -/
def sortByLocale {α : Type} (key : α → String) (xs : List α) : List α :=
  xs.insertionSort fun left right => localeCompare (key left) (key right) ≠ .gt

/-- One withheld resource per symbol a holder occupies in a shared file. -/
def withheldSymbolsFor (file : String) (spans : List NamedRange) (contest : DeferredResource) :
    List DeferredResource :=
  (sortByLocale id (unique (spans.map NamedRange.name))).map fun name =>
    { resourceType := .symbol
      resourceId := name
      heldBy := contest.heldBy
      reason := "held inside " ++ file ++ " by " ++ ", ".intercalate contest.heldBy ++
        ", which is the only part of that file being withheld: " ++ contest.reason
      locations := some ((spans.filter fun span => span.name = name).map fun span =>
        ⟨span.toLineRange, file⟩) }

end

/-! ## The last line the index accounts for -/

variable {all : List NamedRange}

theorem foldl_max_le {start bound : Int} :
    all.foldl (fun last range => max last range.endLine) start ≤ bound ↔
      start ≤ bound ∧ ∀ range ∈ all, range.endLine ≤ bound := by
  induction all generalizing start with
  | nil => simp
  | cons range all ih =>
    rw [List.foldl_cons, ih, List.forall_mem_cons, Int.max_le, and_assoc]

theorem knownEnd_le {bound : Int} :
    knownEnd all ≤ bound ↔ 0 ≤ bound ∧ ∀ range ∈ all, range.endLine ≤ bound :=
  foldl_max_le

theorem le_knownEnd {range : NamedRange} (h : range ∈ all) : range.endLine ≤ knownEnd all :=
  (knownEnd_le.mp (le_refl _)).2 range h

theorem knownEnd_safe (hv : ∀ range ∈ all, range.Valid) : knownEnd all ≤ maxSafeInteger :=
  knownEnd_le.mpr ⟨by decide, fun range hr => (hv range hr).end_safe.2⟩

/-! ## Leaves and zones -/

def Inside (inner outer : NamedRange) : Prop :=
  outer.startLine ≤ inner.startLine ∧ inner.endLine ≤ outer.endLine ∧
    (outer.startLine < inner.startLine ∨ inner.endLine < outer.endLine)

theorem mem_leafRanges {range : NamedRange} :
    range ∈ leafRanges all ↔ range ∈ all ∧ ∀ other ∈ all, ¬Inside other range := by
  rw [leafRanges, List.mem_filter, Bool.not_eq_true', List.any_eq_false]
  simp only [Bool.and_eq_true, Bool.or_eq_true, decide_eq_true_eq, and_assoc, Inside]

def leafLines (all : List NamedRange) : List LineRange :=
  (leafRanges all).map NamedRange.toLineRange

theorem leafLines_valid (hv : ∀ range ∈ all, range.Valid) :
    ∀ range ∈ leafLines all, range.Valid := by
  intro range hr
  obtain ⟨leaf, hleaf, rfl⟩ := List.mem_map.mp hr
  exact hv leaf (mem_leafRanges.mp hleaf).1

theorem lineIn_leafLines_known (hv : ∀ range ∈ all, range.Valid) {line : Int}
    (h : LineIn (leafLines all) line) : 1 ≤ line ∧ line ≤ knownEnd all := by
  obtain ⟨range, hr, hm⟩ := h
  obtain ⟨leaf, hleaf, rfl⟩ := List.mem_map.mp hr
  have hall := (mem_leafRanges.mp hleaf).1
  have hpos := (hv leaf hall).start_pos
  have hend := le_knownEnd hall
  unfold LineRange.Mem at hm
  omega

/-- **The zones** hold the known lines that are in no leaf. -/
theorem lineIn_insertionZones (hv : ∀ range ∈ all, range.Valid) {line : Int} :
    LineIn (insertionZones all) line ↔
      (1 ≤ line ∧ line ≤ knownEnd all) ∧ ¬LineIn (leafLines all) line := by
  unfold insertionZones
  dsimp only
  split
  · rename_i hnone
    exact ⟨fun h => absurd h (lineIn_nil line), fun h => by omega⟩
  · have hnonneg : 0 ≤ knownEnd all := (knownEnd_le.mp (le_refl _)).1
    have hmin : -maxSafeInteger ≤ 1 ∧ (1 : Int) ≤ maxSafeInteger := by decide
    have hknown : ∀ range ∈ [(⟨1, knownEnd all⟩ : LineRange)], range.Valid := by
      intro range hr
      rw [List.mem_singleton.mp hr]
      exact ⟨le_refl _, hmin, Int.le_trans (by omega) hnonneg, knownEnd_safe hv⟩
    rw [← leafLines, lineIn_subtractRanges_valid hknown (leafLines_valid hv), lineIn_cons]
    exact and_congr_left' ⟨fun h => h.resolve_right (lineIn_nil line), .inl⟩

theorem insertionZones_proper {zone : LineRange} (h : zone ∈ insertionZones all) :
    zone.startLine ≤ zone.endLine := by
  unfold insertionZones at h
  dsimp only at h
  split at h
  · cases h
  · exact subtractRanges_proper h

/-- The spans divide the lines of a file up to the last known one. -/
structure Partitions (zones leaves : List LineRange) (known : Int) : Prop where
  apart : ∀ zone ∈ zones, ∀ leaf ∈ leaves, ∀ line, ¬(zone.Mem line ∧ leaf.Mem line)
  disjoint : zones.Pairwise fun zone other => ∀ line, ¬(zone.Mem line ∧ other.Mem line)
  covers : ∀ line, 1 ≤ line ∧ line ≤ known ↔ LineIn zones line ∨ LineIn leaves line

/-- **Leaf declarations and insertion zones** divide the indexed part of a file. -/
theorem zones_partition (all : List NamedRange) (hv : ∀ range ∈ all, range.Valid) :
    Partitions (insertionZones all) (leafLines all) (knownEnd all) where
  apart zone hz leaf hleaf line hboth :=
    ((lineIn_insertionZones hv).mp ⟨zone, hz, hboth.1⟩).2 ⟨leaf, hleaf, hboth.2⟩
  disjoint := by
    unfold insertionZones
    dsimp only
    split
    · exact List.Pairwise.nil
    · refine (subtractRanges_separate _ _).imp fun {zone other} hbefore line hboth => ?_
      obtain ⟨hzone, hother⟩ := hboth
      unfold Before at hbefore
      unfold LineRange.Mem at hzone hother
      omega
  covers line := by
    rw [lineIn_insertionZones hv]
    constructor
    · intro hknown
      by_cases hleaf : LineIn (leafLines all) line
      · exact .inr hleaf
      · exact .inl ⟨hknown, hleaf⟩
    · rintro (⟨hknown, -⟩ | hleaf)
      · exact hknown
      · exact lineIn_leafLines_known hv hleaf

theorem zones_partition_class :
    Partitions (insertionZones [⟨⟨3, 20⟩, "Cart"⟩, ⟨⟨5, 9⟩, "Cart.add"⟩, ⟨⟨12, 15⟩, "Cart.total"⟩])
      (leafLines [⟨⟨3, 20⟩, "Cart"⟩, ⟨⟨5, 9⟩, "Cart.add"⟩, ⟨⟨12, 15⟩, "Cart.total"⟩])
      (knownEnd [⟨⟨3, 20⟩, "Cart"⟩, ⟨⟨5, 9⟩, "Cart.add"⟩, ⟨⟨12, 15⟩, "Cart.total"⟩]) :=
  zones_partition [⟨⟨3, 20⟩, "Cart"⟩, ⟨⟨5, 9⟩, "Cart.add"⟩, ⟨⟨12, 15⟩, "Cart.total"⟩] (by decide)

example : insertionZones [⟨⟨3, 20⟩, "Cart"⟩, ⟨⟨5, 9⟩, "Cart.add"⟩, ⟨⟨12, 15⟩, "Cart.total"⟩] =
    [⟨1, 4⟩, ⟨10, 11⟩, ⟨16, 20⟩] := by decide

/-! ## Spans of an index -/

/-- Every range an index answers with is a span of lines of a file, none of them
the last a file can have. -/
def IndexValid (index : SymbolIndex) : Prop :=
  ∀ locate, index = some locate → ∀ file ranges, locate file = some ranges →
    ∀ range ∈ ranges, range.Valid ∧ range.endLine < maxSafeInteger

/-- The spans lie in the part of a file the index accounts for. -/
def WithinIndexed (all spans : List NamedRange) : Prop :=
  ∀ span ∈ spans, span.Valid ∧ span.endLine ≤ knownEnd all

/-- The ranges of a file the index could not read are none. -/
def rangesOf (locate : String → Option (List NamedRange)) (file : String) : List NamedRange :=
  (locate file).getD []

theorem IndexValid.rangesOf {locate : String → Option (List NamedRange)}
    (h : IndexValid (some locate)) (file : String) :
    ∀ range ∈ rangesOf locate file, range.Valid ∧ range.endLine < maxSafeInteger := by
  intro range hr
  unfold Coordinator.rangesOf at hr
  cases hl : locate file with
  | none =>
    rw [hl] at hr
    cases hr
  | some ranges =>
    rw [hl] at hr
    exact h locate rfl file ranges hl range hr

section

variable {all : List NamedRange}

theorem withinIndexed_filter (hv : ∀ range ∈ all, range.Valid) (p : NamedRange → Bool) :
    WithinIndexed all (all.filter p) := by
  intro span hs
  have hm := List.mem_of_mem_filter hs
  exact ⟨hv span hm, le_knownEnd hm⟩

theorem withinIndexed_append {first second : List NamedRange} (h₁ : WithinIndexed all first)
    (h₂ : WithinIndexed all second) : WithinIndexed all (first ++ second) := by
  intro span hs
  exact (List.mem_append.mp hs).elim (h₁ span) (h₂ span)

theorem zoneSpans_within (hv : ∀ range ∈ all, range.Valid) (name : String) :
    WithinIndexed all (zoneSpans all name) := by
  intro span hs
  obtain ⟨zone, hz, rfl⟩ := List.mem_map.mp hs
  have hproper := insertionZones_proper hz
  have hin {line : Int} (hm : zone.Mem line) : 1 ≤ line ∧ line ≤ knownEnd all :=
    ((lineIn_insertionZones hv).mp ⟨zone, hz, hm⟩).1
  have hstart := hin ⟨le_refl _, hproper⟩
  have hend := hin ⟨hproper, le_refl _⟩
  have hsafe := knownEnd_safe hv
  have hmin : -maxSafeInteger ≤ 1 := by decide
  have hzone : zone.Valid := ⟨hstart.1, ⟨by omega, by omega⟩, ⟨by omega, by omega⟩⟩
  exact ⟨hzone, hend.2⟩

end

section

variable [TextRuntime]

variable {grounding : PlanGrounding} {file : String} {locate : String → Option (List NamedRange)}
  {spans : List NamedRange} {plan : AgentPlan} {index : SymbolIndex}

theorem referentSpans_within (hv : ∀ range ∈ rangesOf locate file, range.Valid)
    (h : referentSpans grounding file locate = some spans) :
    WithinIndexed (rangesOf locate file) spans := by
  unfold referentSpans at h
  dsimp only at h
  split at h
  · cases h
  · split at h
    · cases h
    · rename_i ranges hl
      split at h
      · cases h
      · rw [rangesOf, hl, Option.getD_some] at hv ⊢
        exact Option.some.inj h ▸ withinIndexed_filter hv _

theorem occupiedSpans_declared {files : List String}
    (hf : uniqueRepositoryPaths plan.expectedFiles = .ok files) (hm : file ∈ files) :
    occupiedSpans plan file index = .ok none := by
  unfold occupiedSpans
  cases index with
  | none => rfl
  | some locate =>
    simp only [hf, bind, Except.bind, hm, if_true]
    rfl

theorem occupiedSpans_misnamed {occupied : Option (List NamedRange)}
    (hg : plan.grounding = some grounding)
    (hm : ∃ entry ∈ grounding.fileReferents, entry.resolved = file)
    (h : occupiedSpans plan file index = .ok occupied) : occupied = none := by
  unfold occupiedSpans at h
  cases index with
  | none => exact (Except.ok.inj h).symm
  | some locate =>
    cases hf : uniqueRepositoryPaths plan.expectedFiles with
    | error e =>
      rw [hf] at h
      cases h
    | ok files =>
      simp only [hf, bind, Except.bind, hg] at h
      split at h
      · exact (Except.ok.inj h).symm
      · rw [if_pos] at h
        · exact (Except.ok.inj h).symm
        · obtain ⟨entry, he, rfl⟩ := hm
          exact List.any_eq_true.mpr ⟨entry, he, by simp⟩

theorem occupiedSpans_within (hv : ∀ range ∈ rangesOf locate file, range.Valid)
    (h : occupiedSpans plan file (some locate) = .ok (some spans)) :
    WithinIndexed (rangesOf locate file) spans := by
  unfold occupiedSpans at h
  cases hf : uniqueRepositoryPaths plan.expectedFiles with
  | error e =>
    rw [hf] at h
    cases h
  | ok files =>
    simp only [hf, bind, Except.bind] at h
    split at h
    · cases h
    · split at h
      · cases h
      · split at h
        · cases h
        · exact referentSpans_within hv (Except.ok.inj h)

section

variable [Lemmatizer]

variable {plan : AgentPlan} {file : String} {locate : String → Option (List NamedRange)}
  {spans : List NamedRange}

theorem declaredSpans_ok (h : declaredSpans plan file locate = .ok (some spans)) :
    ∃ files, uniqueRepositoryPaths plan.expectedFiles = .ok files ∧ file ∈ files ∧
      ((plan.ownSymbols = [] ∧ guessedSpans plan (rangesOf locate file) = some spans) ∨
        (plan.ownSymbols ≠ [] ∧ namedSpans plan files file locate = some spans)) := by
  unfold declaredSpans at h
  cases hf : uniqueRepositoryPaths plan.expectedFiles with
  | error e =>
    simp only [completeAgentPlan, hf] at h
    cases h
  | ok files =>
    simp only [completeAgentPlan, hf, bind, Except.bind] at h
    split at h
    · cases h
    · rename_i hm
      refine ⟨files, rfl, not_not.mp hm, ?_⟩
      split at h
      · rename_i hl
        exact .inl ⟨List.eq_nil_of_length_eq_zero hl, Except.ok.inj h⟩
      · rename_i hl
        exact .inr ⟨fun hnil => hl (by rw [hnil]; rfl), Except.ok.inj h⟩

theorem guessedSpans_within {all spans : List NamedRange} (hv : ∀ range ∈ all, range.Valid)
    (h : guessedSpans plan all = some spans) : WithinIndexed all spans := by
  unfold guessedSpans at h
  dsimp only at h
  split at h
  · cases h
  · obtain rfl := Option.some.inj h
    exact withinIndexed_append (withinIndexed_filter hv _) (zoneSpans_within hv _)

omit [Lemmatizer] in
theorem namedSpans_within {files : List String} (hv : ∀ range ∈ rangesOf locate file, range.Valid)
    (h : namedSpans plan files file locate = some spans) :
    WithinIndexed (rangesOf locate file) spans := by
  unfold namedSpans at h
  dsimp only at h
  split at h
  · obtain rfl := Option.some.inj h
    exact withinIndexed_filter hv _
  · split at h
    · cases h
    · obtain rfl := Option.some.inj h
      exact withinIndexed_append (withinIndexed_filter hv _) (zoneSpans_within hv _)

/-- **No reading of a plan's declarations reaches past the indexed part of a
file.** -/
theorem declaredSpans_within (hv : ∀ range ∈ rangesOf locate file, range.Valid)
    (h : declaredSpans plan file locate = .ok (some spans)) :
    WithinIndexed (rangesOf locate file) spans := by
  obtain ⟨files, -, -, ⟨-, hg⟩ | ⟨-, hn⟩⟩ := declaredSpans_ok h
  · exact guessedSpans_within hv hg
  · exact namedSpans_within hv hn

/-- **The reading by declarations covers what the index places the plan's own
symbols at.** -/
theorem declaredSpans_own (h : declaredSpans plan file locate = .ok (some spans)) {symbol : String}
    (hs : symbol ∈ plan.ownSymbols) {range : NamedRange} (hr : range ∈ rangesOf locate file)
    (hn : toLowerCase range.name ∈ standsFor plan symbol) : range ∈ spans := by
  obtain ⟨files, -, -, ⟨hnil, -⟩ | ⟨-, hnamed⟩⟩ := declaredSpans_ok h
  · rw [hnil] at hs
    cases hs
  · have hown : range ∈ (rangesOf locate file).filter fun range =>
        toLowerCase range.name ∈ plan.ownSymbols.flatMap (standsFor plan) :=
      List.mem_filter.mpr ⟨hr, by simpa using ⟨symbol, hs, hn⟩⟩
    unfold namedSpans at hnamed
    dsimp only at hnamed
    split at hnamed
    · exact Option.some.inj hnamed ▸ hown
    · split at hnamed
      · cases hnamed
      · exact Option.some.inj hnamed ▸ List.mem_append_left _ hown

end

@[simp] theorem mem_sortByLocale {α : Type} {key : α → String} {xs : List α} {x : α} :
    x ∈ sortByLocale key xs ↔ x ∈ xs :=
  List.mem_insertionSort _

end

end AgenticGit.Coordinator
