import AgenticGit.Lib.Interleaved
import AgenticGit.Repository.PatchText

/- Sorting a conflicting changeset into what still applies and what does not
   (`integration-service/src/index.ts`, `salvage`).

   Whole files are tried first, and the hunks of a file that fails one by one. The trials
   are any program that answers; a trial that only looks at its patch is a function from
   texts (`Id`).

   What is proved: `sorted_iff` — **a file's patch is on one side, or divided with every
   hunk on one side**, exactly when the texts its hunks are re-emitted as can be read back;
   `divided_iff` — a path is reported as divided when it has patches on both sides. -/
namespace AgenticGit.Integration
open AgenticGit.Runtime AgenticGit.Shared AgenticGit.Repository AgenticGit.Interleave

/-- What survived a salvage pass, and what is being handed back. -/
structure SalvageOutcome where
  /-- Patches to apply, some of them a file's clean hunks rather than a file. -/
  granted : List FilePatch
  /-- Patches that collided. -/
  deferred : List FilePatch
  /-- Files that landed only in part. -/
  divided : List String
  deriving DecidableEq, Repr

/-- The lists with another file's pushed behind them. -/
def SalvageOutcome.append (first second : SalvageOutcome) : SalvageOutcome :=
  ⟨first.granted ++ second.granted, first.deferred ++ second.deferred,
    first.divided ++ second.divided⟩

section Salvage

variable {m : Type → Type} [Monad m] (appliesCleanly : String → m Bool)

/-- The loop over the hunks: those to keep, and those to hold. -/
def sortHunks (parsed : ParsedPatch) : List ParsedHunk → m (List ParsedHunk × List ParsedHunk)
  | [] => pure ([], [])
  | hunk :: hunks => do
    let clean ← appliesCleanly (emitPatch parsed [hunk])
    let (keep, hold) ← sortHunks parsed hunks
    return if clean then (hunk :: keep, hold) else (keep, hunk :: hold)

def salvageFile (filePatch : FilePatch) : m SalvageOutcome := do
  let clean ← appliesCleanly filePatch.patch
  if clean then return ⟨[filePatch], [], []⟩
  else
    match parseUnifiedPatch filePatch.patch with
    | none => return ⟨[], [filePatch], []⟩
    | some parsed =>
      if parsed.hunks.length < 2 then return ⟨[], [filePatch], []⟩
      else do
        let (keep, hold) ← sortHunks appliesCleanly parsed parsed.hunks
        if keep.length = 0 ∨ hold.length = 0 then
          -- the hunks interact, or all of them collide
          return ⟨[], [filePatch], []⟩
        else
          return ⟨[{ filePatch with patch := emitPatch parsed keep }],
            [{ filePatch with patch := emitPatch parsed hold }], [filePatch.path]⟩

def salvage : List FilePatch → m SalvageOutcome
  | [] => pure ⟨[], [], []⟩
  | filePatch :: patches => do
    let first ← salvageFile appliesCleanly filePatch
    let rest ← salvage patches
    return first.append rest

end Salvage

/-! ## Trials that only look at the patch -/

/-- The outcome for one file, when a trial is a function of its text. -/
def fileOutcome (accepted : String → Bool) (filePatch : FilePatch) : SalvageOutcome :=
  @salvageFile Id _ accepted filePatch

def outcomeOf (accepted : String → Bool) (patches : List FilePatch) : SalvageOutcome :=
  @salvage Id _ accepted patches

theorem outcomeOf_nil (accepted : String → Bool) : outcomeOf accepted [] = ⟨[], [], []⟩ := rfl

theorem outcomeOf_cons (accepted : String → Bool) (filePatch : FilePatch)
    (patches : List FilePatch) : outcomeOf accepted (filePatch :: patches) =
      (fileOutcome accepted filePatch).append (outcomeOf accepted patches) := rfl

def alone (accepted : String → Bool) (parsed : ParsedPatch) (hunk : ParsedHunk) : Bool :=
  accepted (emitPatch parsed [hunk])

theorem sortHunks_id (accepted : String → Bool) (parsed : ParsedPatch) (hunks : List ParsedHunk) :
    @sortHunks Id _ accepted parsed hunks =
      (hunks.filter (alone accepted parsed),
        hunks.filter fun hunk => !alone accepted parsed hunk) := by
  induction hunks with
  | nil => rfl
  | cons hunk hunks ih =>
    have hstep : @sortHunks Id _ accepted parsed (hunk :: hunks) =
        if alone accepted parsed hunk then
          (hunk :: (@sortHunks Id _ accepted parsed hunks).1,
            (@sortHunks Id _ accepted parsed hunks).2)
        else ((@sortHunks Id _ accepted parsed hunks).1,
          hunk :: (@sortHunks Id _ accepted parsed hunks).2) := rfl
    rw [hstep, ih]
    cases halone : alone accepted parsed hunk with
    | true => simp [halone]
    | false => simp [halone]

theorem fileOutcome_clean {accepted : String → Bool} {filePatch : FilePatch}
    (h : accepted filePatch.patch = true) :
    fileOutcome accepted filePatch = ⟨[filePatch], [], []⟩ := by
  unfold fileOutcome salvageFile
  simp only [h]
  rfl

theorem fileOutcome_none {accepted : String → Bool} {filePatch : FilePatch}
    (h : accepted filePatch.patch = false) (hp : parseUnifiedPatch filePatch.patch = none) :
    fileOutcome accepted filePatch = ⟨[], [filePatch], []⟩ := by
  unfold fileOutcome salvageFile
  simp only [h, hp]
  rfl

theorem fileOutcome_some {accepted : String → Bool} {filePatch : FilePatch}
    {parsed : ParsedPatch} (h : accepted filePatch.patch = false)
    (hp : parseUnifiedPatch filePatch.patch = some parsed) :
    fileOutcome accepted filePatch =
      if parsed.hunks.length < 2 then ⟨[], [filePatch], []⟩
      else if (parsed.hunks.filter (alone accepted parsed)).length = 0 ∨
          (parsed.hunks.filter fun hunk => !alone accepted parsed hunk).length = 0 then
        ⟨[], [filePatch], []⟩
      else
        ⟨[{ filePatch with
            patch := emitPatch parsed (parsed.hunks.filter (alone accepted parsed)) }],
          [{ filePatch with
            patch := emitPatch parsed
              (parsed.hunks.filter fun hunk => !alone accepted parsed hunk) }],
          [filePatch.path]⟩ := by
  unfold fileOutcome salvageFile
  simp only [h, hp, sortHunks_id]
  rfl

/-! ## Every hunk on one side -/

/-- Where a file's patch is after a salvage: whole on one side, or divided, with every hunk
of it on one side. What is granted, the trials accepted on its own. -/
inductive Sorted (accepted : String → Bool) (filePatch : FilePatch) : SalvageOutcome → Prop where
  | granted (h : accepted filePatch.patch = true) : Sorted accepted filePatch ⟨[filePatch], [], []⟩
  | deferred : Sorted accepted filePatch ⟨[], [filePatch], []⟩
  | divided {granted deferred : String} {parsed kept held : ParsedPatch}
      (hparsed : parseUnifiedPatch filePatch.patch = some parsed)
      (hkept : parseUnifiedPatch granted = some kept)
      (hheld : parseUnifiedPatch deferred = some held)
      (hunks : Interleaved kept.hunks held.hunks parsed.hunks)
      (sides : kept.hunks ≠ [] ∧ held.hunks ≠ [])
      (alone : ∀ hunk ∈ kept.hunks, alone accepted parsed hunk = true) :
      Sorted accepted filePatch ⟨[{ filePatch with patch := granted }],
        [{ filePatch with patch := deferred }], [filePatch.path]⟩

/-- The hunks that apply on their own and those that do not can each be told from their
text. -/
def Splittable (accepted : String → Bool) (filePatch : FilePatch) : Prop :=
  accepted filePatch.patch = false → ∀ parsed, parseUnifiedPatch filePatch.patch = some parsed →
    let keep := parsed.hunks.filter (alone accepted parsed)
    let hold := parsed.hunks.filter fun hunk => !alone accepted parsed hunk
    keep ≠ [] → hold ≠ [] → Emittable parsed keep ∧ Emittable parsed hold

theorem sorted_divided {accepted : String → Bool} {filePatch : FilePatch}
    {granted deferred path : String} (h : Sorted accepted filePatch
      ⟨[{ filePatch with patch := granted }], [{ filePatch with patch := deferred }], [path]⟩) :
    ∃ kept held, parseUnifiedPatch granted = some kept ∧
      parseUnifiedPatch deferred = some held := by
  generalize houtcome : (⟨[{ filePatch with patch := granted }],
    [{ filePatch with patch := deferred }], [path]⟩ : SalvageOutcome) = outcome at h
  cases h with
  | granted => cases (SalvageOutcome.mk.inj houtcome).2.1
  | deferred => cases (SalvageOutcome.mk.inj houtcome).1
  | divided hparsed hkept hheld =>
    obtain ⟨hgranted, hdeferred, -⟩ := SalvageOutcome.mk.inj houtcome
    obtain rfl := congrArg FilePatch.patch (List.cons.inj hgranted).1
    obtain rfl := congrArg FilePatch.patch (List.cons.inj hdeferred).1
    exact ⟨_, _, hkept, hheld⟩

/-- **A file's hunks are each on one side exactly when its parts can be read back.** -/
theorem sorted_iff (accepted : String → Bool) (filePatch : FilePatch) :
    Sorted accepted filePatch (fileOutcome accepted filePatch) ↔
      Splittable accepted filePatch := by
  cases hclean : accepted filePatch.patch with
  | true =>
    rw [fileOutcome_clean hclean]
    refine iff_of_true (.granted hclean) fun hfailed => ?_
    rw [hclean] at hfailed
    cases hfailed
  | false =>
    cases hparsed : parseUnifiedPatch filePatch.patch with
    | none =>
      rw [fileOutcome_none hclean hparsed]
      refine iff_of_true .deferred fun _ parsed hsome => ?_
      rw [hparsed] at hsome
      cases hsome
    | some parsed =>
      obtain ⟨hshaped, hne, -⟩ := parseUnifiedPatch_shaped hparsed
      have hsplit : Splittable accepted filePatch ↔
          (parsed.hunks.filter (alone accepted parsed) ≠ [] →
            (parsed.hunks.filter fun hunk => !alone accepted parsed hunk) ≠ [] →
            Emittable parsed (parsed.hunks.filter (alone accepted parsed)) ∧
              Emittable parsed (parsed.hunks.filter fun hunk => !alone accepted parsed hunk)) := by
        unfold Splittable
        rw [hparsed]
        constructor
        · exact fun h => h hclean parsed rfl
        · rintro h - other heq
          obtain rfl := Option.some.inj heq
          exact h
      rw [hsplit, fileOutcome_some hclean hparsed]
      have hinter := interleaved_filter (alone accepted parsed) parsed.hunks
      have hlength := @List.length_eq_length_filter_add _ parsed.hunks (alone accepted parsed)
      have halone : ∀ hunk ∈ parsed.hunks.filter (alone accepted parsed),
          alone accepted parsed hunk = true := fun hunk hhunk => (List.mem_filter.mp hhunk).2
      have hs₁ : ∀ hunk ∈ parsed.hunks.filter (alone accepted parsed), Shaped hunk :=
        fun hunk hhunk => hshaped.hunks hunk (List.mem_filter.mp hhunk).1
      have hs₂ : ∀ hunk ∈ parsed.hunks.filter (fun hunk => !alone accepted parsed hunk),
          Shaped hunk := fun hunk hhunk => hshaped.hunks hunk (List.mem_filter.mp hhunk).1
      generalize parsed.hunks.filter (alone accepted parsed) = keep at *
      generalize parsed.hunks.filter (fun hunk => !alone accepted parsed hunk) = hold at *
      by_cases hboth : keep ≠ [] ∧ hold ≠ []
      · have hkeep := List.length_pos_of_ne_nil hboth.1
        have hhold := List.length_pos_of_ne_nil hboth.2
        rw [if_neg (by omega), if_neg (by omega)]
        constructor
        · intro hsorted _ _
          obtain ⟨kept, held, hkept, hheld⟩ := sorted_divided hsorted
          constructor
          · by_contra he
            rw [parse_emitPatch_none hshaped.preamble hs₁ hboth.1 he] at hkept
            cases hkept
          · by_contra he
            rw [parse_emitPatch_none hshaped.preamble hs₂ hboth.2 he] at hheld
            cases hheld
        · intro he
          obtain ⟨hkept, hheld⟩ := he hboth.1 hboth.2
          exact .divided hparsed (parse_emitPatch hshaped.preamble hs₁ hboth.1 hkept)
            (parse_emitPatch hshaped.preamble hs₂ hboth.2 hheld) hinter hboth halone
      · have hwhole : (if parsed.hunks.length < 2 then
              (⟨[], [filePatch], []⟩ : SalvageOutcome)
            else if keep.length = 0 ∨ hold.length = 0 then ⟨[], [filePatch], []⟩
            else ⟨[{ filePatch with patch := emitPatch parsed keep }],
              [{ filePatch with patch := emitPatch parsed hold }], [filePatch.path]⟩) =
            ⟨[], [filePatch], []⟩ := by
          rw [if_pos (c := keep.length = 0 ∨ hold.length = 0), ite_self]
          rw [List.length_eq_zero_iff, List.length_eq_zero_iff]
          rwa [not_and_or, not_not, not_not] at hboth
        rw [hwhole]
        exact iff_of_true .deferred fun hkeep hhold => absurd ⟨hkeep, hhold⟩ hboth

/-- A salvage conserves the changeset: it is the files' outcomes in their order, every hunk of
a file is on one side, and the divided paths are those with patches on both. -/
structure Conserves (accepted : String → Bool) (patches : List FilePatch) : Prop where
  granted : (outcomeOf accepted patches).granted =
    patches.flatMap fun filePatch => (fileOutcome accepted filePatch).granted
  deferred : (outcomeOf accepted patches).deferred =
    patches.flatMap fun filePatch => (fileOutcome accepted filePatch).deferred
  files : ∀ filePatch ∈ patches, Sorted accepted filePatch (fileOutcome accepted filePatch)
  divided : (patches.map FilePatch.path).Nodup → ∀ path,
    path ∈ (outcomeOf accepted patches).divided ↔
      path ∈ (outcomeOf accepted patches).granted.map FilePatch.path ∧
        path ∈ (outcomeOf accepted patches).deferred.map FilePatch.path

inductive OneFile (path : String) : SalvageOutcome → Prop where
  | granted {outcome : SalvageOutcome} (h : outcome.granted.map FilePatch.path = [path])
      (hd : outcome.deferred = []) (hn : outcome.divided = []) : OneFile path outcome
  | deferred {outcome : SalvageOutcome} (h : outcome.granted = [])
      (hd : outcome.deferred.map FilePatch.path = [path]) (hn : outcome.divided = []) :
      OneFile path outcome
  | divided {outcome : SalvageOutcome} (h : outcome.granted.map FilePatch.path = [path])
      (hd : outcome.deferred.map FilePatch.path = [path]) (hn : outcome.divided = [path]) :
      OneFile path outcome

theorem fileOutcome_oneFile (accepted : String → Bool) (filePatch : FilePatch) :
    OneFile filePatch.path (fileOutcome accepted filePatch) := by
  cases hclean : accepted filePatch.patch with
  | true =>
    rw [fileOutcome_clean hclean]
    exact .granted rfl rfl rfl
  | false =>
    cases hparsed : parseUnifiedPatch filePatch.patch with
    | none =>
      rw [fileOutcome_none hclean hparsed]
      exact .deferred rfl rfl rfl
    | some parsed =>
      rw [fileOutcome_some hclean hparsed]
      split
      · exact .deferred rfl rfl rfl
      · split
        · exact .deferred rfl rfl rfl
        · exact .divided rfl rfl rfl

theorem OneFile.mem {path other : String} {outcome : SalvageOutcome} (h : OneFile path outcome) :
    (other ∈ outcome.granted.map FilePatch.path → other = path) ∧
      (other ∈ outcome.deferred.map FilePatch.path → other = path) ∧
      (other ∈ outcome.divided ↔ other ∈ outcome.granted.map FilePatch.path ∧
        other ∈ outcome.deferred.map FilePatch.path) := by
  cases h with
  | granted h hd hn => simp [h, hd, hn]
  | deferred h hd hn => simp [h, hd, hn]
  | divided h hd hn => simp [h, hd, hn]

theorem outcomeOf_paths (accepted : String → Bool) (patches : List FilePatch) {path : String}
    (h : path ∈ (outcomeOf accepted patches).granted.map FilePatch.path ∨
      path ∈ (outcomeOf accepted patches).deferred.map FilePatch.path) :
    path ∈ patches.map FilePatch.path := by
  induction patches with
  | nil => simp [outcomeOf_nil] at h
  | cons filePatch patches ih =>
    have hfile := @OneFile.mem _ path _ (fileOutcome_oneFile accepted filePatch)
    rw [outcomeOf_cons] at h
    simp only [SalvageOutcome.append, List.map_append, List.mem_append] at h
    rw [List.map_cons, List.mem_cons]
    rcases h with (h | h) | (h | h)
    · exact .inl (hfile.1 h)
    · exact .inr (ih (.inl h))
    · exact .inl (hfile.2.1 h)
    · exact .inr (ih (.inr h))

/-- **A path is reported as divided when it has patches on both sides.** -/
theorem divided_iff (accepted : String → Bool) {patches : List FilePatch}
    (hpaths : (patches.map FilePatch.path).Nodup) (path : String) :
    path ∈ (outcomeOf accepted patches).divided ↔
      path ∈ (outcomeOf accepted patches).granted.map FilePatch.path ∧
        path ∈ (outcomeOf accepted patches).deferred.map FilePatch.path := by
  induction patches with
  | nil => simp [outcomeOf_nil]
  | cons filePatch patches ih =>
    rw [List.map_cons, List.nodup_cons] at hpaths
    obtain ⟨hfile₁, hfile₂, hfile⟩ := @OneFile.mem _ path _ (fileOutcome_oneFile accepted filePatch)
    have hrest := @outcomeOf_paths accepted patches path
    have ih := ih hpaths.2
    rw [outcomeOf_cons]
    simp only [SalvageOutcome.append, List.map_append, List.mem_append]
    rw [hfile, ih]
    constructor
    · rintro (⟨h₁, h₂⟩ | ⟨h₁, h₂⟩)
      · exact ⟨.inl h₁, .inl h₂⟩
      · exact ⟨.inr h₁, .inr h₂⟩
    · rintro ⟨h₁ | h₁, h₂ | h₂⟩
      · exact .inl ⟨h₁, h₂⟩
      · obtain rfl := hfile₁ h₁
        exact absurd (hrest (.inr h₂)) hpaths.1
      · obtain rfl := hfile₂ h₂
        exact absurd (hrest (.inl h₁)) hpaths.1
      · exact .inr ⟨h₁, h₂⟩

theorem outcomeOf_flatMap (accepted : String → Bool) (patches : List FilePatch) :
    (outcomeOf accepted patches).granted =
        patches.flatMap (fun filePatch => (fileOutcome accepted filePatch).granted) ∧
      (outcomeOf accepted patches).deferred =
        patches.flatMap fun filePatch => (fileOutcome accepted filePatch).deferred := by
  induction patches with
  | nil => exact ⟨rfl, rfl⟩
  | cons filePatch patches ih =>
    rw [outcomeOf_cons]
    simp only [SalvageOutcome.append, List.flatMap_cons, ih, and_self]

/-- **A salvage conserves the changeset exactly when its divided files can be read back.** -/
theorem conserves_iff (accepted : String → Bool) (patches : List FilePatch) :
    Conserves accepted patches ↔ ∀ filePatch ∈ patches, Splittable accepted filePatch := by
  constructor
  · intro h filePatch hmem
    exact (sorted_iff accepted filePatch).mp (h.files filePatch hmem)
  · intro h
    obtain ⟨hgranted, hdeferred⟩ := outcomeOf_flatMap accepted patches
    exact ⟨hgranted, hdeferred, fun filePatch hmem =>
      (sorted_iff accepted filePatch).mpr (h filePatch hmem),
      fun hpaths path => divided_iff accepted hpaths path⟩

end AgenticGit.Integration
