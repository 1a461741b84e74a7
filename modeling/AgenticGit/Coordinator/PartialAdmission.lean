import AgenticGit.Lib.OrderedMap
import AgenticGit.Coordinator.Hunks

/- What happens to a changeset produced under a partial admission
   (`coordinator/src/partial-admission.ts`): every patch is sorted into granted,
   deferred, or escaped.

   What is proved:
     1. `splitLoop_filled` — the loop gives every patch one fate: whole in one of
        the three, or divided hunk by hunk between the first two. What it grants,
        the plan may write and the admission did not defer; what it calls escaped,
        the plan may not.
     2. `splitChangeSet_conserves_iff` — **what the split hands back conserves the
        changeset and contains what it grants** exactly when some patch is held
        back or none escapes.

   Where nothing is held back, `splitChangeSet` hands back the changeset it was
   given, and a patch that escaped is in it.

   Correspondence (TypeScript ↔ Lean):
     `granted`, `deferred` (the sets)     ↔ the lists `granted`, `deferred`
     `locatedRanges.get(file)`            ↔ `locatedRanges`, `[]` when it has none
     the body of the loop over patches    ↔ `fateOf`, `SplitState.push`
     `createId("changeset")`              ↔ the argument `freshId` -/
namespace AgenticGit.Coordinator
open AgenticGit.Runtime AgenticGit.Shared AgenticGit.Repository

/-! ## splitChangeSet -/

/-- One file's patch, split at the hunks that reached a withheld symbol. -/
structure DividedPatch where
  path : String
  grantedHunks : Nat
  deferredHunks : Nat
  symbols : List String
  deriving DecidableEq, Repr

structure ChangeSetSplit where
  /-- Patches inside the granted scope. The only ones that reach canonical. -/
  granted : ChangeSet
  /-- Patches held back. Never applied. -/
  deferred : List FilePatch
  /-- Patches on files that were neither granted nor deferred. -/
  escaped : List String
  /-- Withheld symbols a patch reached into, by the file that reached. -/
  withheldSymbols : OrderedMap String (List String)
  divided : List DividedPatch

def withheldNames (admission : PlanAdmission) : List String :=
  (admission.deferred.filter fun resource => resource.resourceType = .symbol).map
    DeferredResource.resourceId

/-- The admission's own answer to where its withheld symbols sit in a file. -/
def locatedRanges (admission : PlanAdmission) (file : String) : List NamedRange :=
  (admission.deferred.filter fun resource => resource.resourceType = .symbol).flatMap
    fun resource =>
      ((resource.locations.getD []).filter fun location => location.file = file).map
        fun location => ⟨location.toLineRange, resource.resourceId⟩

/-- The admission's answer first, and the index only as the fallback. -/
def withheldNamedRanges (admission : PlanAdmission) (index : SymbolIndex) (file : String) :
    Option (List NamedRange) :=
  match locatedRanges admission file with
  | [] => index.bind fun symbolRangesInFile => symbolRangesInFile file
  | located => some located

def withheldRangesIn (admission : PlanAdmission) (index : SymbolIndex) (file : String) :
    List LineRange :=
  (((withheldNamedRanges admission index file).getD []).filter fun range =>
    range.name ∈ withheldNames admission).map NamedRange.toLineRange

def reachedSymbols (admission : PlanAdmission) (index : SymbolIndex) (patch : FilePatch) :
    List String :=
  let names := withheldNames admission
  if names.length = 0 then []
  else namesTouchedByPatch patch.patch (withheldNamedRanges admission index patch.path) names

/-- What the body of the loop decides about one patch. -/
inductive PatchFate where
  | granted
  | deferred
  | escaped
  /-- It reached withheld symbols and is held back whole. -/
  | held (reached : List String)
  /-- It reached withheld symbols and is divided at the hunks that did. -/
  | divided (reached : List String) (granted deferred : String) (division : PatchDivision)
  deriving DecidableEq, Repr

def fateOfGranted (admission : PlanAdmission) (index : SymbolIndex) (patch : FilePatch) :
    PatchFate :=
  let reached := reachedSymbols admission index patch
  if reached.length = 0 then .granted
  else
    let division :=
      if patch.status = .modified then
        dividePatchByRanges patch.patch (withheldRangesIn admission index patch.path)
      else none
    match division with
    | none => .held reached
    | some division =>
      match division.granted, division.deferred with
      | some granted, some deferred => .divided reached granted deferred division
      | _, _ => .held reached

def fateOf (plan : AgentPlan) (admission : PlanAdmission) (index : SymbolIndex)
    (granted deferred : List String) (patch : FilePatch) : Except PathError PatchFate :=
  if patch.path ∈ deferred then .ok .deferred
  else if patch.path ∈ granted then .ok (fateOfGranted admission index patch)
  else do
    if ← claimCoversPath plan patch.path then return fateOfGranted admission index patch
    else return .escaped

structure SplitState where
  grantedPatches : List FilePatch
  deferredPatches : List FilePatch
  escaped : List String
  withheldSymbols : OrderedMap String (List String)
  divided : List DividedPatch

def SplitState.empty : SplitState := ⟨[], [], [], OrderedMap.empty, []⟩

def SplitState.push (state : SplitState) (patch : FilePatch) : PatchFate → SplitState
  | .granted => { state with grantedPatches := state.grantedPatches ++ [patch] }
  | .deferred => { state with deferredPatches := state.deferredPatches ++ [patch] }
  | .escaped => { state with escaped := state.escaped ++ [patch.path] }
  | .held reached =>
    { state with
      withheldSymbols := state.withheldSymbols.set patch.path reached
      deferredPatches := state.deferredPatches ++ [patch] }
  | .divided reached granted deferred division =>
    { state with
      withheldSymbols := state.withheldSymbols.set patch.path reached
      grantedPatches := state.grantedPatches ++ [{ patch with patch := granted }]
      deferredPatches := state.deferredPatches ++ [{ patch with patch := deferred }]
      divided := state.divided ++
        [⟨patch.path, division.grantedHunks, division.deferredHunks, reached⟩] }

def splitLoop (plan : AgentPlan) (admission : PlanAdmission) (index : SymbolIndex)
    (granted deferred : List String) (state : SplitState) :
    List FilePatch → Except PathError SplitState
  | [] => .ok state
  | patch :: patches => do
    let fate ← fateOf plan admission index granted deferred patch
    splitLoop plan admission index granted deferred (state.push patch fate) patches

/-- Splits a changeset along the line the admission drew. -/
def splitChangeSet (plan : AgentPlan) (admission : PlanAdmission) (changeSet : ChangeSet)
    (index : SymbolIndex) (freshId : String) : Except PathError ChangeSetSplit := do
  let granted ← uniqueRepositoryPaths plan.expectedFiles
  let deferred ← deferredFilePaths admission
  let state ← splitLoop plan admission index granted deferred .empty changeSet.patches
  return {
    granted :=
      if state.deferredPatches.length = 0 then changeSet
      else { changeSet with id := freshId, patches := state.grantedPatches }
    deferred := state.deferredPatches
    escaped := sortStrings (unique state.escaped)
    withheldSymbols := state.withheldSymbols
    divided := state.divided }

/-! ## What the split should be -/

/-- A patch divided in two: the same file, and its hunks between them. -/
structure DividesPatch (patch granted deferred : FilePatch) : Prop where
  granted_file : granted.path = patch.path ∧ granted.status = patch.status
  deferred_file : deferred.path = patch.path ∧ deferred.status = patch.status
  hunks : Divides patch.patch granted.patch deferred.patch

/-- Every patch has one fate: granted whole, deferred whole, escaped, or divided. -/
inductive Sorts : List FilePatch → List FilePatch → List FilePatch → List String → Prop where
  | nil : Sorts [] [] [] []
  | granted {patches granted deferred escaped} (patch : FilePatch) :
      Sorts patches granted deferred escaped →
      Sorts (patch :: patches) (patch :: granted) deferred escaped
  | deferred {patches granted deferred escaped} (patch : FilePatch) :
      Sorts patches granted deferred escaped →
      Sorts (patch :: patches) granted (patch :: deferred) escaped
  | escaped {patches granted deferred escaped} (patch : FilePatch) :
      Sorts patches granted deferred escaped →
      Sorts (patch :: patches) granted deferred (patch.path :: escaped)
  | divided {patches granted deferred escaped} {patch kept held : FilePatch} :
      DividesPatch patch kept held → Sorts patches granted deferred escaped →
      Sorts (patch :: patches) (kept :: granted) (held :: deferred) escaped

/-- The path is in the plan's expected files or covered by its claim. -/
def MayWrite (plan : AgentPlan) (path : String) : Prop :=
  (∃ files, uniqueRepositoryPaths plan.expectedFiles = .ok files ∧ path ∈ files) ∨
    claimCoversPath plan path = .ok true

def FileDeferred (admission : PlanAdmission) (path : String) : Prop :=
  ∃ files, deferredFilePaths admission = .ok files ∧ path ∈ files

/-- What the split hands back holds every patch of the changeset once, grants
only what the plan may write, and reports the files it grants. -/
structure Conserves (plan : AgentPlan) (admission : PlanAdmission) (changeSet : ChangeSet)
    (split : ChangeSetSplit) : Prop where
  sorts : ∃ escaped, Sorts changeSet.patches split.granted.patches split.deferred escaped ∧
    split.escaped = sortStrings (unique escaped)
  mayWrite : ∀ patch ∈ split.granted.patches, MayWrite plan patch.path
  notDeferred : ∀ patch ∈ split.granted.patches, ¬FileDeferred admission patch.path
  notEscaped : ∀ patch ∈ split.granted.patches, patch.path ∉ split.escaped
  reported : (summariseChangedFiles split.granted.patches).map ChangedFileSummary.path =
    split.granted.patches.map FilePatch.path

/-- The patch is held back, in part at least: its file was deferred, or it reaches
a withheld symbol of a file that was granted. -/
def HeldBack (plan : AgentPlan) (admission : PlanAdmission) (index : SymbolIndex)
    (patch : FilePatch) : Prop :=
  FileDeferred admission patch.path ∨
    (MayWrite plan patch.path ∧ reachedSymbols admission index patch ≠ [])

/-! ## One patch -/

theorem fateOfGranted_cases (admission : PlanAdmission) (index : SymbolIndex)
    (patch : FilePatch) :
    (reachedSymbols admission index patch = [] ∧
      fateOfGranted admission index patch = .granted) ∨
    (reachedSymbols admission index patch ≠ [] ∧
      (fateOfGranted admission index patch = .held (reachedSymbols admission index patch) ∨
        ∃ kept held division, fateOfGranted admission index patch =
          .divided (reachedSymbols admission index patch) kept held division ∧
          Divides patch.patch kept held)) := by
  unfold fateOfGranted
  dsimp only
  split
  · rename_i hlen
    exact .inl ⟨List.eq_nil_of_length_eq_zero hlen, rfl⟩
  · rename_i hlen
    refine .inr ⟨fun hnil => hlen (by rw [hnil]; rfl), ?_⟩
    split
    · exact .inl rfl
    · rename_i division hdivision
      split at hdivision
      · split
        · rename_i kept held hkept hheld
          exact .inr ⟨kept, held, division, rfl, dividePatchByRanges_spec hdivision hkept hheld⟩
        · exact .inl rfl
      · cases hdivision

section Split

variable {plan : AgentPlan} {admission : PlanAdmission} {index : SymbolIndex}
  {granted deferred : List String}

theorem mayWrite_iff (hg : uniqueRepositoryPaths plan.expectedFiles = .ok granted)
    (path : String) :
    MayWrite plan path ↔ path ∈ granted ∨ claimCoversPath plan path = .ok true := by
  unfold MayWrite
  rw [hg]
  simp only [Except.ok.injEq, exists_eq_left']

theorem fileDeferred_iff (hd : deferredFilePaths admission = .ok deferred) (path : String) :
    FileDeferred admission path ↔ path ∈ deferred := by
  unfold FileDeferred
  rw [hd]
  simp only [Except.ok.injEq, exists_eq_left']

/-- What the loop decides about a patch, in terms of what the plan may write and
what the admission deferred. -/
theorem fateOf_cases (hg : uniqueRepositoryPaths plan.expectedFiles = .ok granted)
    (hd : deferredFilePaths admission = .ok deferred) {patch : FilePatch} {fate : PatchFate}
    (h : fateOf plan admission index granted deferred patch = .ok fate) :
    (FileDeferred admission patch.path ∧ fate = .deferred) ∨
    (¬FileDeferred admission patch.path ∧ MayWrite plan patch.path ∧
      fate = fateOfGranted admission index patch) ∨
    (¬FileDeferred admission patch.path ∧ ¬MayWrite plan patch.path ∧ fate = .escaped) := by
  rw [mayWrite_iff hg, fileDeferred_iff hd]
  unfold fateOf at h
  split at h
  · rename_i hin
    cases h
    exact .inl ⟨hin, rfl⟩
  · rename_i hout
    split at h
    · rename_i hin
      cases h
      exact .inr (.inl ⟨hout, .inl hin, rfl⟩)
    · rename_i hnot
      cases hc : claimCoversPath plan patch.path with
      | error e =>
        rw [hc] at h
        cases h
      | ok covers =>
        rw [hc] at h
        cases covers with
        | true =>
          cases h
          exact .inr (.inl ⟨hout, .inr rfl, rfl⟩)
        | false =>
          cases h
          refine .inr (.inr ⟨hout, ?_, rfl⟩)
          rintro (hin | htrue)
          · exact hnot hin
          · cases htrue

/-! ## The loop -/

variable (plan admission index) in
/-- What the loop makes of a list of patches, however much it has filled before. -/
structure Filled (patches : List FilePatch) (gs ds : List FilePatch) (es : List String) :
    Prop where
  sorts : Sorts patches gs ds es
  mayWrite : ∀ patch ∈ gs, MayWrite plan patch.path ∧ ¬FileDeferred admission patch.path
  notWrite : ∀ path ∈ es, ¬MayWrite plan path
  held : ds ≠ [] ↔ ∃ patch ∈ patches, HeldBack plan admission index patch
  escapes : es ≠ [] ↔
    ∃ patch ∈ patches, ¬FileDeferred admission patch.path ∧ ¬MayWrite plan patch.path

theorem exists_mem_cons_iff {α : Type} {p : α → Prop} {a : α} {as : List α} :
    (∃ x ∈ a :: as, p x) ↔ p a ∨ ∃ x ∈ as, p x := by
  simp only [List.mem_cons, exists_eq_or_imp]

namespace Filled

variable {patches gs ds : List FilePatch} {es : List String} {patch : FilePatch}

theorem nil : Filled plan admission index [] [] [] [] where
  sorts := .nil
  mayWrite patch h := by cases h
  notWrite path h := by cases h
  held := by simp
  escapes := by simp

theorem push_granted (h : Filled plan admission index patches gs ds es)
    (hw : MayWrite plan patch.path) (hn : ¬FileDeferred admission patch.path)
    (hr : reachedSymbols admission index patch = []) :
    Filled plan admission index (patch :: patches) (patch :: gs) ds es where
  sorts := .granted patch h.sorts
  mayWrite := by
    intro x hx
    rcases List.mem_cons.mp hx with rfl | hx
    · exact ⟨hw, hn⟩
    · exact h.mayWrite x hx
  notWrite := h.notWrite
  held := by
    rw [exists_mem_cons_iff, h.held, HeldBack]
    simp [hn, hr]
  escapes := by
    rw [exists_mem_cons_iff, h.escapes]
    simp [hw]

theorem push_deferred (h : Filled plan admission index patches gs ds es)
    (hb : HeldBack plan admission index patch)
    (hw : FileDeferred admission patch.path ∨ MayWrite plan patch.path) :
    Filled plan admission index (patch :: patches) gs (patch :: ds) es where
  sorts := .deferred patch h.sorts
  mayWrite := h.mayWrite
  notWrite := h.notWrite
  held := by
    rw [exists_mem_cons_iff]
    simp [hb]
  escapes := by
    rw [exists_mem_cons_iff, h.escapes]
    tauto

theorem push_divided (h : Filled plan admission index patches gs ds es)
    (hw : MayWrite plan patch.path) (hn : ¬FileDeferred admission patch.path)
    (hr : reachedSymbols admission index patch ≠ []) {kept held : String}
    (hd : Divides patch.patch kept held) :
    Filled plan admission index (patch :: patches) ({ patch with patch := kept } :: gs)
      ({ patch with patch := held } :: ds) es where
  sorts := .divided ⟨⟨rfl, rfl⟩, ⟨rfl, rfl⟩, hd⟩ h.sorts
  mayWrite := by
    intro x hx
    rcases List.mem_cons.mp hx with rfl | hx
    · exact ⟨hw, hn⟩
    · exact h.mayWrite x hx
  notWrite := h.notWrite
  held := by
    rw [exists_mem_cons_iff, HeldBack]
    simp [hw, hr]
  escapes := by
    rw [exists_mem_cons_iff, h.escapes]
    simp [hw]

theorem push_escaped (h : Filled plan admission index patches gs ds es)
    (hw : ¬MayWrite plan patch.path) (hn : ¬FileDeferred admission patch.path) :
    Filled plan admission index (patch :: patches) gs ds (patch.path :: es) where
  sorts := .escaped patch h.sorts
  mayWrite := h.mayWrite
  notWrite := by
    intro x hx
    rcases List.mem_cons.mp hx with rfl | hx
    · exact hw
    · exact h.notWrite x hx
  held := by
    rw [exists_mem_cons_iff, h.held, HeldBack]
    simp [hn, hw]
  escapes := by
    rw [exists_mem_cons_iff]
    simp [hw, hn]

end Filled

/-- **The loop gives every patch one fate.** -/
theorem splitLoop_filled (hg : uniqueRepositoryPaths plan.expectedFiles = .ok granted)
    (hd : deferredFilePaths admission = .ok deferred) {patches : List FilePatch}
    {state state' : SplitState}
    (h : splitLoop plan admission index granted deferred state patches = .ok state') :
    ∃ gs ds es, state'.grantedPatches = state.grantedPatches ++ gs ∧
      state'.deferredPatches = state.deferredPatches ++ ds ∧
      state'.escaped = state.escaped ++ es ∧
      Filled plan admission index patches gs ds es := by
  induction patches generalizing state with
  | nil =>
    cases h
    exact ⟨[], [], [], (List.append_nil _).symm, (List.append_nil _).symm,
      (List.append_nil _).symm, .nil⟩
  | cons patch patches ih =>
    rw [splitLoop] at h
    cases hf : fateOf plan admission index granted deferred patch with
    | error e =>
      rw [hf] at h
      cases h
    | ok fate =>
      rw [hf] at h
      obtain ⟨gs, ds, es, hgs, hds, hes, hfilled⟩ := ih h
      rcases fateOf_cases hg hd hf with ⟨hdef, rfl⟩ | ⟨hn, hw, hfate⟩ | ⟨hn, hw, rfl⟩
      · refine ⟨gs, patch :: ds, es, hgs, ?_, hes, hfilled.push_deferred (.inl hdef) (.inl hdef)⟩
        rw [hds, SplitState.push, List.append_assoc, List.singleton_append]
      · rcases fateOfGranted_cases admission index patch with
          ⟨hr, heq⟩ | ⟨hr, heq | ⟨kept, held, division, heq, hdiv⟩⟩
        · rw [hfate, heq] at hgs hds hes
          refine ⟨patch :: gs, ds, es, ?_, hds, hes, hfilled.push_granted hw hn hr⟩
          rw [hgs, SplitState.push, List.append_assoc, List.singleton_append]
        · rw [hfate, heq] at hgs hds hes
          refine ⟨gs, patch :: ds, es, hgs, ?_, hes, hfilled.push_deferred (.inr ⟨hw, hr⟩) (.inr hw)⟩
          rw [hds, SplitState.push, List.append_assoc, List.singleton_append]
        · rw [hfate, heq] at hgs hds hes
          refine ⟨_ :: gs, _ :: ds, es, ?_, ?_, hes, hfilled.push_divided hw hn hr hdiv⟩
          · rw [hgs, SplitState.push, List.append_assoc, List.singleton_append]
          · rw [hds, SplitState.push, List.append_assoc, List.singleton_append]
      · refine ⟨gs, ds, patch.path :: es, hgs, hds, ?_, hfilled.push_escaped hw hn⟩
        rw [hes, SplitState.push, List.append_assoc, List.singleton_append]

theorem Sorts.all_granted {patches gs : List FilePatch} (h : Sorts patches gs [] []) :
    gs = patches := by
  generalize hds : ([] : List FilePatch) = ds at h
  generalize hes : ([] : List String) = es at h
  induction h with
  | nil => rfl
  | granted patch _ ih => rw [ih hds hes]
  | deferred patch _ _ => cases hds
  | escaped patch _ _ => cases hes
  | divided _ _ _ => cases hds

variable {changeSet : ChangeSet} {split : ChangeSetSplit}

/-- What the split hands back is what the loop made of the patches, or the changeset
as it is when nothing was held back. -/
theorem splitChangeSet_filled {freshId : String}
    (h : splitChangeSet plan admission changeSet index freshId = .ok split) :
    ∃ gs ds es, Filled plan admission index changeSet.patches gs ds es ∧ split.deferred = ds ∧
      split.escaped = sortStrings (unique es) ∧
      split.granted.patches = if ds = [] then changeSet.patches else gs := by
  unfold splitChangeSet at h
  cases hg : uniqueRepositoryPaths plan.expectedFiles with
  | error e =>
    rw [hg] at h
    cases h
  | ok granted =>
    cases hd : deferredFilePaths admission with
    | error e =>
      rw [hg, hd] at h
      cases h
    | ok deferred =>
      cases hl : splitLoop plan admission index granted deferred .empty changeSet.patches with
      | error e =>
        simp only [hg, hd, hl, bind, Except.bind] at h
        cases h
      | ok state =>
        simp only [hg, hd, hl, bind, Except.bind, pure, Except.pure, Except.ok.injEq] at h
        obtain ⟨gs, ds, es, hgs, hds, hes, hfilled⟩ := splitLoop_filled hg hd hl
        replace hgs : state.grantedPatches = gs := hgs
        replace hds : state.deferredPatches = ds := hds
        replace hes : state.escaped = es := hes
        refine ⟨gs, ds, es, hfilled, by rw [← h, ← hds], by rw [← h, ← hes], ?_⟩
        rw [← h, ← hgs, ← hds]
        by_cases hnil : state.deferredPatches = []
        · rw [if_pos hnil, if_pos (by rw [hnil]; rfl)]
        · rw [if_neg hnil, if_neg fun hlen => hnil (List.eq_nil_of_length_eq_zero hlen)]

theorem splitChangeSet_notDeferred {freshId : String}
    (h : splitChangeSet plan admission changeSet index freshId = .ok split) {patch : FilePatch}
    (hp : patch ∈ split.granted.patches) : ¬FileDeferred admission patch.path := by
  obtain ⟨gs, ds, es, hfilled, -, -, hgranted⟩ := splitChangeSet_filled h
  rw [hgranted] at hp
  split at hp
  · rename_i hnil
    intro hdeferred
    exact hfilled.held.mpr ⟨patch, hp, .inl hdeferred⟩ hnil
  · exact (hfilled.mayWrite patch hp).2

/-- **Enforcement conserves the changeset and contains what it grants** exactly
when some patch is held back, in part at least, or none is outside what the plan
may write and the admission deferred. -/
theorem splitChangeSet_conserves_iff {changeSet : ChangeSet} {freshId : String}
    {split : ChangeSetSplit}
    (h : splitChangeSet plan admission changeSet index freshId = .ok split) :
    Conserves plan admission changeSet split ↔
      ((∃ patch ∈ changeSet.patches, HeldBack plan admission index patch) ∨
        ∀ patch ∈ changeSet.patches,
          FileDeferred admission patch.path ∨ MayWrite plan patch.path) := by
  have hnotDeferred : ∀ patch ∈ split.granted.patches, ¬FileDeferred admission patch.path :=
    fun patch => splitChangeSet_notDeferred h
  obtain ⟨gs, ds, es, hfilled, hdeferred, hescaped, hgranted⟩ := splitChangeSet_filled h
  have hreported : (summariseChangedFiles split.granted.patches).map ChangedFileSummary.path =
      split.granted.patches.map FilePatch.path := by
    rw [summariseChangedFiles, List.map_map]
    rfl
  have hconserves : split.granted.patches = gs → Conserves plan admission changeSet split := by
    intro hpatches
    refine ⟨⟨es, ?_, hescaped⟩, ?_, hnotDeferred, ?_, hreported⟩
    · rw [hpatches, hdeferred]
      exact hfilled.sorts
    · rw [hpatches]
      exact fun patch hp => (hfilled.mayWrite patch hp).1
    · rw [hpatches, hescaped]
      intro patch hp hin
      rw [mem_sortStrings, mem_unique] at hin
      exact hfilled.notWrite patch.path hin (hfilled.mayWrite patch hp).1
  by_cases hheld : ds = []
  · -- Nothing is held back: the changeset comes back as it is.
    rw [if_pos hheld] at hgranted
    have hnone : ¬∃ patch ∈ changeSet.patches, HeldBack plan admission index patch := by
      rw [← hfilled.held]
      exact fun hne => hne hheld
    by_cases hesc : es = []
    · have hsorts := hfilled.sorts
      rw [hheld, hesc] at hsorts
      have hall := hsorts.all_granted
      refine ⟨fun _ => .inr ?_, fun _ => hconserves (hgranted.trans hall.symm)⟩
      intro patch hp
      rw [← hall] at hp
      exact .inr (hfilled.mayWrite patch hp).1
    · obtain ⟨patch, hp, hn, hw⟩ := hfilled.escapes.mp hesc
      constructor
      · intro hc
        exact absurd (hc.mayWrite patch (hgranted ▸ hp)) hw
      · rintro (hsome | hall)
        · exact absurd hsome hnone
        · rcases hall patch hp with hdef | hwrite
          · exact absurd hdef hn
          · exact absurd hwrite hw
  · -- Something is held back: what is granted is what the loop granted.
    rw [if_neg hheld] at hgranted
    exact ⟨fun _ => .inl (hfilled.held.mp hheld), fun _ => hconserves hgranted⟩

end Split

def samplePlan (expectedFiles : List String) : AgentPlan :=
  { taskId := "task", objective := "edit", expectedFiles := expectedFiles, expectedSymbols := [] }

def sampleAdmission (files : List String) : PlanAdmission :=
  { status := .approved
    taskId := "task"
    planRevision := 1
    baseRevision := "base"
    ownershipGrants := []
    constraints := []
    blockedBy := []
    conflicts := []
    deferredResources := some (files.map fun file => ⟨.file, file, ["other"], "held", false, none⟩)
    explanation := "" }

def sampleChangeSet (files : List String) : ChangeSet :=
  ⟨"changeset", "task", 1, "base", files.map fun file => ⟨file, .modified, ""⟩⟩

theorem splitChangeSet_conserves_iff_deferred :
    ∃ split, splitChangeSet (samplePlan ["a.ts", "b.ts"]) (sampleAdmission ["b.ts"])
        (sampleChangeSet ["a.ts", "b.ts", "c.ts"]) none "fresh" = .ok split ∧
      Conserves (samplePlan ["a.ts", "b.ts"]) (sampleAdmission ["b.ts"])
        (sampleChangeSet ["a.ts", "b.ts", "c.ts"]) split := by
  cases h : splitChangeSet (samplePlan ["a.ts", "b.ts"]) (sampleAdmission ["b.ts"])
      (sampleChangeSet ["a.ts", "b.ts", "c.ts"]) none "fresh" with
  | error e =>
    have hok : (splitChangeSet (samplePlan ["a.ts", "b.ts"]) (sampleAdmission ["b.ts"])
        (sampleChangeSet ["a.ts", "b.ts", "c.ts"]) none "fresh").toBool = true := by
      decide
    rw [h] at hok
    cases hok
  | ok split =>
    refine ⟨split, rfl, (splitChangeSet_conserves_iff h).mpr (.inl ?_)⟩
    exact ⟨⟨"b.ts", .modified, ""⟩, by decide, .inl ⟨["b.ts"], by decide, by decide⟩⟩

/-- Nothing is withheld, and a patch on a file the plan does not name is granted. -/
theorem splitChangeSet_grants_escaped :
    ∃ split, splitChangeSet (samplePlan ["a.ts"]) (sampleAdmission [])
        (sampleChangeSet ["a.ts", "c.ts"]) none "fresh" = .ok split ∧
      ¬Conserves (samplePlan ["a.ts"]) (sampleAdmission []) (sampleChangeSet ["a.ts", "c.ts"])
        split := by
  have hboth : (splitChangeSet (samplePlan ["a.ts"]) (sampleAdmission [])
      (sampleChangeSet ["a.ts", "c.ts"]) none "fresh").toOption.map
      (fun split => (split.granted.patches, split.escaped)) =
      some ((sampleChangeSet ["a.ts", "c.ts"]).patches, ["c.ts"]) := by decide
  cases h : splitChangeSet (samplePlan ["a.ts"]) (sampleAdmission [])
      (sampleChangeSet ["a.ts", "c.ts"]) none "fresh" with
  | error e =>
    rw [h] at hboth
    cases hboth
  | ok split =>
    rw [h] at hboth
    obtain ⟨hpatches, hescaped⟩ := Prod.mk.inj (Option.some.inj hboth)
    refine ⟨split, rfl, ?_⟩
    intro hc
    have hin : (⟨"c.ts", .modified, ""⟩ : FilePatch) ∈ split.granted.patches := by
      rw [hpatches]
      decide
    exact hc.notEscaped _ hin (by rw [hescaped]; decide)

/-! ## The validator behind the split -/

structure ScopeExpansionError where
  unexpectedFiles : List String
  message : String
  deriving DecidableEq, Repr

/-- `new ScopeExpansionError(unexpectedFiles)`. -/
def scopeExpansionError (unexpectedFiles : List String) : ScopeExpansionError :=
  ⟨unexpectedFiles,
    "Changeset includes files outside the approved plan: " ++ ", ".intercalate unexpectedFiles⟩

/-- What `assertChangeSetWithinPlan` throws: its own error, or that of a path the
claim names. -/
inductive ScopeError where
  | path (error : PathError)
  | expansion (error : ScopeExpansionError)
  deriving DecidableEq, Repr

/-- The files of the patches that neither the declarations nor the claim approve. -/
def unexpectedFiles (plan : AgentPlan) : List FilePatch → Except PathError (List String)
  | [] => .ok []
  | patch :: patches => do
    if patch.path ∈ plan.expectedFiles then unexpectedFiles plan patches
    else
      let covers ← claimCoversPath plan patch.path
      let rest ← unexpectedFiles plan patches
      return if covers then rest else patch.path :: rest

def assertChangeSetWithinPlan (plan : AgentPlan) (changeSet : ChangeSet) :
    Except ScopeError Unit :=
  match unexpectedFiles plan changeSet.patches with
  | .error error => .error (.path error)
  | .ok files =>
    if 0 < files.length then
      .error (.expansion (scopeExpansionError (sortStrings (unique files))))
    else .ok ()

end AgenticGit.Coordinator
