import AgenticGit.Coordinator.PartialAdmission
import AgenticGit.Coordinator.MidRun

/- What an in-process task hands over for integration: the collection at the end of
   `prepareTask`, and the repair round of `integrateTask` (`coordinator.ts`).

   There are two ways into `integrate`. The first changeset is split along the line the
   admission drew, against the plan as it stands by then; a repair is only checked file
   by file.

   What is proved:
     1. `split_passedOn` — of the first changeset, nothing is handed over that the split
        holds back.
     2. `run_enforced` — neither is anything of the repair, and no patch on a file that
        was granted later is held back, in every run whose later grants are of nothing
        the admission withheld and whose repair reaches nothing withheld.
     3. `later_grant_held_back` — without the one, and without the other, it is not so.

   Correspondence (TypeScript ↔ Lean):
     the calls of `integrations.integrate` ↔ `TaskRun.promotions`
     `status`, `salvagedDeferred`          ↔ `IntegrationResult`; the rest of it decides
       nothing here
     a `throw`, or a task that is returned to the queue ↔ `none` -/
namespace AgenticGit.Coordinator
open AgenticGit.Runtime AgenticGit.Shared AgenticGit.CodeIntelligence

/-! ## Collection -/

structure WaveVersion where
  revision : String
  sequence : Int
  deriving DecidableEq, Repr

/-- The files of the patches that a frozen or declared claim does not hold. -/
def filesOutsideClaim (plan : AgentPlan) (paths : List String) : Except PathError (List String) := do
  let declared ← uniqueRepositoryPaths plan.expectedFiles
  let outside ← paths.filterM fun file => do
    let occupied ← claimOccupiesPath plan file
    let named := match plan.claim with
      | some (.declared _) => decide (file ∈ declared)
      | _ => false
    return !occupied && !named
  return sortStrings (unique outside)

/-- Puts what a frozen or declared claim does not hold through one widening; `admitted`
is the authority's answer to it. -/
def widenFrozenClaim (task : PlannedTask) (changeSet : ChangeSet) (admitted : Bool) :
    Option PlannedTask :=
  match task.plan.claim with
  | some (.frozen _) | some (.declared _) => do
    let escaped ← (filesOutsideClaim task.plan (changeSet.patches.map FilePatch.path)).toOption
    if escaped.length = 0 then return task
    else if admitted then
      return { task with
        plan := { task.plan with
          expectedFiles := sortStrings (task.plan.expectedFiles ++ escaped) }
        planRevision := task.planRevision + 1 }
    else none
  | _ => some task

/-- The index goes with the split when a symbol was withheld. -/
def indexFor (admission : PlanAdmission) (ranges : String → Option (List NamedRange)) :
    SymbolIndex :=
  if admission.deferred.any fun resource => resource.resourceType = .symbol then some ranges
  else none

/-- The split of a task's changeset, when its admission withheld something. -/
def splitFor (task : PlannedTask) (ranges : String → Option (List NamedRange))
    (changeSet : ChangeSet) (freshId : String) : Except PathError (Option ChangeSetSplit) :=
  match task.admission with
  | none => .ok none
  | some admission =>
    if admission.deferred.length = 0 then .ok none
    else do
      return some (← splitChangeSet task.plan admission changeSet (indexFor admission ranges) freshId)

/-! ## A run -/

inductive IntegrationStatus where
  | integrated | conflict | validationFailed | policyFailed | stale | empty
  deriving DecidableEq, Repr

structure IntegrationResult where
  status : IntegrationStatus
  /-- The patches salvage could not promote. -/
  salvagedDeferred : Option (List FilePatch) := none
  deriving DecidableEq, Repr

/-- The files a result still owes after integration answered. -/
def contestedPaths (integration : IntegrationResult) (changeSet : ChangeSet) : List String :=
  if integration.status = .conflict then
    sortStrings (unique (changeSet.patches.map FilePatch.path))
  else sortStrings (unique ((integration.salvagedDeferred.getD []).map FilePatch.path))

/-- One task from its admission to the end of integration, with every answer it gets. -/
structure TaskRun where
  admitted : PlannedTask
  ground : Grounding
  decisions : List MidRunDecision
  version : WaveVersion
  /-- Where the symbols of a file are, at the wave's revision. -/
  ranges : String → Option (List NamedRange)
  /-- What the agent hands back. -/
  collected : ChangeSet
  freshId : String
  /-- The authority's answer to the widening of a frozen claim. -/
  widened : Bool
  /-- No reviewer is needed for a changeset, or one lets it pass. -/
  reviewed : ChangeSet → Bool
  repairConflicts : Bool
  integration : Option IntegrationResult
  /-- What the agent hands back when it is asked to repair, and does not fail to. -/
  repaired : Option ChangeSet

/-- A changeset passed to `integrate`, the one the agent handed back, and the plan the
task had then. -/
structure Promotion where
  plan : AgentPlan
  collected : ChangeSet
  integrated : ChangeSet
  deriving DecidableEq, Repr

namespace TaskRun

section
variable [TextRuntime]

def task (run : TaskRun) : PlannedTask :=
  run.decisions.foldl (PlannedTask.decide run.ground) run.admitted

def split (run : TaskRun) : Except PathError (Option ChangeSetSplit) :=
  splitFor run.task run.ranges run.collected run.freshId

/-- The end of `prepareTask`: the task and the changeset it is prepared with. -/
def prepare (run : TaskRun) : Option (PlannedTask × ChangeSet) :=
  let task := run.task
  if run.collected.taskId ≠ task.taskId ∨ run.collected.baseRevision ≠ run.version.revision ∨
      run.collected.baseVersion ≠ run.version.sequence then none
  else do
    let split ← run.split.toOption
    if split.any fun split => 0 < split.escaped.length then none
    else
      let granted := (split.map ChangeSetSplit.granted).getD run.collected
      -- the free portion made no progress on its own
      if task.admission.any planAdmissionPartial && granted.patches.length = 0 then none
      else
        let task ← widenFrozenClaim task granted run.widened
        if (assertChangeSetWithinPlan task.plan granted).toOption.isNone then none
        else if run.reviewed granted then return (task, granted)
        else none

/-- `repairChangeSet`: the repair the file-level check lets through. -/
def repair (run : TaskRun) (result : PlannedTask) : Option ChangeSet := do
  let repaired ← run.repaired
  if (assertChangeSetWithinPlan result.plan repaired).toOption.isNone then none
  else if repaired.patches.length = 0 then none
  else return repaired

/-- The second call of `integrate`, when there is one. -/
def repairPromotion (run : TaskRun) (result : PlannedTask) (changeSet : ChangeSet) :
    Option Promotion := do
  let integration ← run.integration
  let contested := if run.repairConflicts then contestedPaths integration changeSet else []
  if contested.length = 0 then none
  else
    let repaired ← run.repair result
    if run.reviewed repaired then return ⟨result.plan, repaired, repaired⟩ else none

/-- Every call of `integrate`. -/
def promotions (run : TaskRun) : List Promotion :=
  match run.prepare with
  | none => []
  | some (result, changeSet) =>
    ⟨run.task.plan, run.collected, changeSet⟩ :: (run.repairPromotion result changeSet).toList

end

end TaskRun

/-! ## What is handed over -/

/-- The split holds the patch back, in part at least, on account of the resource. -/
def HeldFor (plan : AgentPlan) (admission : PlanAdmission) (index : SymbolIndex)
    (resource : DeferredResource) (patch : FilePatch) : Prop :=
  (resource.resourceType = .file ∧
      normalizeRepositoryPath resource.resourceId = .ok patch.path) ∨
    (resource.resourceType = .symbol ∧ ¬FileDeferred admission patch.path ∧
      MayWrite plan patch.path ∧ resource.resourceId ∈ reachedSymbols admission index patch)

/-- What is handed over of a list of patches: some of them not at all, the ones that are
not held back whole, and of a divided one the hunks the split granted. -/
inductive PassedOn (admission : PlanAdmission) (index : SymbolIndex) (held : FilePatch → Prop) :
    List FilePatch → List FilePatch → Prop where
  | nil : PassedOn admission index held [] []
  | dropped {patches passed} (patch : FilePatch) : PassedOn admission index held patches passed →
      PassedOn admission index held (patch :: patches) passed
  | whole {patches passed} {patch : FilePatch} : ¬held patch →
      PassedOn admission index held patches passed →
      PassedOn admission index held (patch :: patches) (patch :: passed)
  | part {patches passed} {patch : FilePatch} {reached : List String} {kept rest : String}
      {division : PatchDivision} :
      fateOfGranted admission index patch = .divided reached kept rest division →
      PassedOn admission index held patches passed →
      PassedOn admission index held (patch :: patches) ({ patch with patch := kept } :: passed)

namespace PassedOn
variable {admission : PlanAdmission} {index : SymbolIndex} {held held' : FilePatch → Prop}
  {patches passed : List FilePatch}

theorem refl (h : ∀ patch ∈ patches, ¬held patch) :
    PassedOn admission index held patches patches := by
  induction patches with
  | nil => exact .nil
  | cons patch patches ih =>
    obtain ⟨hpatch, hpatches⟩ := List.forall_mem_cons.mp h
    exact .whole hpatch (ih hpatches)

theorem mono (hle : ∀ patch, held' patch → held patch)
    (h : PassedOn admission index held patches passed) :
    PassedOn admission index held' patches passed := by
  induction h with
  | nil => exact .nil
  | dropped patch _ ih => exact .dropped patch ih
  | whole hpatch _ ih => exact .whole (fun hheld => hpatch (hle _ hheld)) ih
  | part hfate _ ih => exact .part hfate ih

end PassedOn

section
variable {plan : AgentPlan} {admission : PlanAdmission} {index : SymbolIndex}

theorem splitLoop_passedOn {granted deferred : List String}
    (hg : uniqueRepositoryPaths plan.expectedFiles = .ok granted)
    (hd : deferredFilePaths admission = .ok deferred) {patches : List FilePatch}
    {state final : SplitState}
    (h : splitLoop plan admission index granted deferred state patches = .ok final) :
    ∃ gs ds, final.grantedPatches = state.grantedPatches ++ gs ∧
      final.deferredPatches = state.deferredPatches ++ ds ∧
      PassedOn admission index (HeldBack plan admission index) patches gs ∧
      ∀ held ∈ ds, ∃ patch ∈ patches, patch.path = held.path ∧
        HeldBack plan admission index patch := by
  induction patches generalizing state with
  | nil =>
    cases h
    exact ⟨[], [], (List.append_nil _).symm, (List.append_nil _).symm, .nil, by simp⟩
  | cons patch patches ih =>
    rw [splitLoop] at h
    obtain ⟨fate, hfate, h⟩ := except_bind_ok h
    obtain ⟨gs, ds, hgs, hds, hpassed, hheld⟩ := ih h
    have hrest : ∀ held ∈ ds, ∃ other ∈ patch :: patches, other.path = held.path ∧
        HeldBack plan admission index other := by
      intro held hin
      obtain ⟨other, hother, hpath, hback⟩ := hheld held hin
      exact ⟨other, .tail _ hother, hpath, hback⟩
    have hfirst : HeldBack plan admission index patch → ∀ text : String,
        ∀ held ∈ { patch with patch := text } :: ds, ∃ other ∈ patch :: patches,
          other.path = held.path ∧ HeldBack plan admission index other := by
      intro hback text held hin
      rcases List.mem_cons.mp hin with rfl | hin
      · exact ⟨patch, .head _, rfl, hback⟩
      · exact hrest held hin
    rcases fateOf_cases hg hd hfate with ⟨hdeferred, rfl⟩ | ⟨hnot, hwrite, hgranted⟩ |
      ⟨hnot, hwrite, rfl⟩
    · refine ⟨gs, patch :: ds, hgs, ?_, .dropped patch hpassed, hfirst (.inl hdeferred) patch.patch⟩
      rw [hds, SplitState.push, List.append_assoc, List.singleton_append]
    · rcases fateOfGranted_cases admission index patch with
        ⟨hreached, heq⟩ | ⟨hreached, heq | ⟨kept, rest, division, heq, -⟩⟩
      · rw [hgranted, heq] at hgs hds
        have hclear : ¬HeldBack plan admission index patch := by
          rintro (hdeferred | ⟨-, hreaches⟩)
          · exact hnot hdeferred
          · exact hreaches hreached
        refine ⟨patch :: gs, ds, ?_, hds, .whole hclear hpassed, hrest⟩
        rw [hgs, SplitState.push, List.append_assoc, List.singleton_append]
      · rw [hgranted, heq] at hgs hds
        refine ⟨gs, patch :: ds, hgs, ?_, .dropped patch hpassed,
          hfirst (.inr ⟨hwrite, hreached⟩) patch.patch⟩
        rw [hds, SplitState.push, List.append_assoc, List.singleton_append]
      · rw [hgranted, heq] at hgs hds
        refine ⟨_ :: gs, _ :: ds, ?_, ?_, .part heq hpassed, hfirst (.inr ⟨hwrite, hreached⟩) rest⟩
        · rw [hgs, SplitState.push, List.append_assoc, List.singleton_append]
        · rw [hds, SplitState.push, List.append_assoc, List.singleton_append]
    · exact ⟨gs, ds, hgs, hds, .dropped patch hpassed, hrest⟩

/-- **Of a changeset that is split, nothing is handed over that is held back, and nothing
is held back besides.** -/
theorem split_passedOn {changeSet : ChangeSet} {freshId : String} {split : ChangeSetSplit}
    (h : splitChangeSet plan admission changeSet index freshId = .ok split) :
    (∃ files, deferredFilePaths admission = .ok files) ∧
      PassedOn admission index (HeldBack plan admission index) changeSet.patches
        split.granted.patches ∧
      ∀ held ∈ split.deferred, ∃ patch ∈ changeSet.patches, patch.path = held.path ∧
        HeldBack plan admission index patch := by
  obtain ⟨_, ds, _, hfilled, hds, -, -⟩ := splitChangeSet_filled h
  unfold splitChangeSet at h
  obtain ⟨granted, hg, h⟩ := except_bind_ok h
  obtain ⟨deferred, hd, h⟩ := except_bind_ok h
  obtain ⟨final, hloop, h⟩ := except_bind_ok h
  obtain rfl := Except.ok.inj h
  obtain ⟨gs, held, hgs, hheld, hpassed, hback⟩ := splitLoop_passedOn hg hd hloop
  replace hheld : final.deferredPatches = held := hheld
  replace hgs : final.grantedPatches = gs := hgs
  replace hds : final.deferredPatches = ds := hds
  refine ⟨⟨deferred, hd⟩, ?_, by rw [hheld]; exact hback⟩
  by_cases hnone : final.deferredPatches.length = 0
  · -- Nothing was held back, and the changeset is handed over as it is.
    rw [if_pos hnone]
    refine .refl fun patch hpatch hheldBack => ?_
    exact hfilled.held.mpr ⟨patch, hpatch, hheldBack⟩ (hds ▸ List.eq_nil_of_length_eq_zero hnone)
  · rw [if_neg hnone]
    show PassedOn _ _ _ _ final.grantedPatches
    rw [hgs]
    exact hpassed

end

def MidRunRequest.isRelease : MidRunRequest → Bool
  | .scopeRelease _ _ => true
  | _ => false

/-- The plan names the resource; a file as the split reads the plan. -/
def Claims (plan : AgentPlan) : ResourceType → String → Prop
  | .file, id => ∃ files, uniqueRepositoryPaths plan.expectedFiles = .ok files ∧ id ∈ files
  | type, id => id ∈ plan.names .expected type

theorem claims_file_iff {plan : AgentPlan} {files : List String}
    (h : uniqueRepositoryPaths plan.expectedFiles = .ok files) {file : String} :
    Claims plan .file file ↔ file ∈ files := by
  simp only [Claims, h, Except.ok.injEq, exists_eq_left']

namespace TaskRun
variable [TextRuntime]

/-- A later scope change or replan was granted, and with it the resource. -/
def Granted (run : TaskRun) (type : ResourceType) (id : String) : Prop :=
  ∃ earlier decision later, run.decisions = earlier ++ decision :: later ∧
    decision.request.isRelease = false ∧
    ¬Claims (earlier.foldl (PlannedTask.decide run.ground) run.admitted).plan type id ∧
    Claims ((earlier ++ [decision]).foldl (PlannedTask.decide run.ground) run.admitted).plan type id

/-- The split holds the patch back for a resource that was never granted. -/
def StillWithheld (run : TaskRun) (admission : PlanAdmission) (plan : AgentPlan)
    (patch : FilePatch) : Prop :=
  ∃ resource ∈ admission.deferred, ¬run.Granted resource.resourceType resource.resourceId ∧
    HeldFor plan admission (indexFor admission run.ranges) resource patch

/-- **The contract is enforced**: nothing still withheld is handed over, and nothing on a
file that was granted later is held back. -/
structure Enforced (run : TaskRun) (admission : PlanAdmission) : Prop where
  contained : ∀ promotion ∈ run.promotions,
    PassedOn admission (indexFor admission run.ranges)
      (run.StillWithheld admission promotion.plan)
      promotion.collected.patches promotion.integrated.patches
  granted : ∀ split, run.split = .ok (some split) → ∀ file, run.Granted .file file →
    Claims run.task.plan .file file →
      (∀ patch ∈ split.deferred, patch.path ≠ file) ∧ file ∉ split.escaped

/-- **The later grants are of nothing the admission withheld, and the repair reaches
nothing withheld.** -/
structure Contained (run : TaskRun) (admission : PlanAdmission) : Prop where
  grants : ∀ patch ∈ run.collected.patches, run.Granted .file patch.path →
    Claims run.task.plan .file patch.path → ¬FileDeferred admission patch.path ∧
      reachedSymbols admission (indexFor admission run.ranges) patch = []
  repair : ∀ result changeSet, run.prepare = some (result, changeSet) →
    ∀ repaired, run.repaired = some repaired →
      assertChangeSetWithinPlan result.plan repaired = .ok () →
        ∀ patch ∈ repaired.patches, ¬run.StillWithheld admission result.plan patch


variable {run : TaskRun} {admission : PlanAdmission}

theorem heldBack_of_stillWithheld {plan : AgentPlan} {patch : FilePatch} {files : List String}
    (hfiles : deferredFilePaths admission = .ok files)
    (h : run.StillWithheld admission plan patch) :
    HeldBack plan admission (indexFor admission run.ranges) patch := by
  obtain ⟨resource, hresource, -, hheld⟩ := h
  rcases hheld with ⟨htype, hpath⟩ | ⟨-, -, hwrite, hreached⟩
  · refine .inl ⟨files, hfiles, (mem_uniqueRepositoryPaths hfiles).mpr ⟨_, ?_, hpath⟩⟩
    exact List.mem_map_of_mem (List.mem_filter.mpr ⟨hresource, by simpa using htype⟩)
  · exact .inr ⟨hwrite, List.ne_nil_of_mem hreached⟩

theorem admission_task (h : run.admitted.admission = some admission) :
    run.task.admission = some admission := by
  rw [task, admission_decisions, h]

theorem prepare_changeSet {result : PlannedTask} {changeSet : ChangeSet}
    (h : run.prepare = some (result, changeSet)) :
    ∃ split, run.split = .ok split ∧
      changeSet = (split.map ChangeSetSplit.granted).getD run.collected := by
  unfold prepare at h
  dsimp only at h
  split at h
  · cases h
  · cases hsplit : run.split with
    | error e =>
      rw [hsplit] at h
      cases h
    | ok split =>
      refine ⟨split, rfl, ?_⟩
      rw [hsplit] at h
      obtain ⟨same, hsame, h⟩ := Option.bind_eq_some_iff.mp h
      obtain rfl := Option.some.inj hsame
      rw [Option.ite_none_left_eq_some, Option.ite_none_left_eq_some] at h
      obtain ⟨widened, -, h⟩ := Option.bind_eq_some_iff.mp h.2.2
      rw [Option.ite_none_left_eq_some, Option.ite_none_right_eq_some] at h
      exact (Prod.mk.inj (Option.some.inj h.2.2)).2.symm

theorem split_eq (hadmitted : run.admitted.admission = some admission)
    {split : Option ChangeSetSplit} (h : run.split = .ok split) :
    (admission.deferred = [] ∧ split = none) ∨
      ∃ parts, split = some parts ∧ splitChangeSet run.task.plan admission run.collected
        (indexFor admission run.ranges) run.freshId = .ok parts := by
  unfold TaskRun.split splitFor at h
  rw [admission_task hadmitted] at h
  dsimp only at h
  split at h
  · rename_i hlen
    exact .inl ⟨List.eq_nil_of_length_eq_zero hlen, (Except.ok.inj h).symm⟩
  · obtain ⟨parts, hparts, h⟩ := except_bind_ok h
    exact .inr ⟨parts, (Except.ok.inj h).symm, hparts⟩

/-- **The first changeset is contained**, whatever was granted or refused before. -/
theorem first_contained (hadmitted : run.admitted.admission = some admission)
    {result : PlannedTask} {changeSet : ChangeSet}
    (h : run.prepare = some (result, changeSet)) :
    PassedOn admission (indexFor admission run.ranges)
      (run.StillWithheld admission run.task.plan) run.collected.patches changeSet.patches := by
  obtain ⟨split, hsplit, rfl⟩ := prepare_changeSet h
  rcases split_eq hadmitted hsplit with ⟨hnone, rfl⟩ | ⟨parts, rfl, hparts⟩
  · refine .refl fun patch _ hheld => ?_
    obtain ⟨resource, hresource, -⟩ := hheld
    rw [hnone] at hresource
    cases hresource
  · obtain ⟨⟨files, hfiles⟩, hpassed, -⟩ := split_passedOn hparts
    exact hpassed.mono fun patch hheld => heldBack_of_stillWithheld hfiles hheld

omit [TextRuntime] in
theorem repairPromotion_eq {result : PlannedTask} {changeSet : ChangeSet} {promotion : Promotion}
    (h : run.repairPromotion result changeSet = some promotion) :
    ∃ repaired, run.repaired = some repaired ∧
      assertChangeSetWithinPlan result.plan repaired = .ok () ∧
      promotion = ⟨result.plan, repaired, repaired⟩ := by
  unfold repairPromotion at h
  obtain ⟨integration, -, h⟩ := Option.bind_eq_some_iff.mp h
  dsimp only at h
  rw [Option.ite_none_left_eq_some] at h
  obtain ⟨repaired, hrepair, h⟩ := Option.bind_eq_some_iff.mp h.2
  rw [Option.ite_none_right_eq_some] at h
  unfold repair at hrepair
  obtain ⟨handed, hhanded, hrepair⟩ := Option.bind_eq_some_iff.mp hrepair
  rw [Option.ite_none_left_eq_some, Option.ite_none_left_eq_some] at hrepair
  obtain ⟨hwithin, -, hrepair⟩ := hrepair
  obtain rfl := Option.some.inj hrepair
  refine ⟨handed, hhanded, ?_, (Option.some.inj h.2).symm⟩
  cases hcheck : assertChangeSetWithinPlan result.plan handed with
  | error e =>
    rw [hcheck] at hwithin
    exact absurd rfl hwithin
  | ok done => rfl

/-- **The contract is enforced** in every run whose later grants are of nothing the
admission withheld, and whose repair reaches nothing withheld. -/
theorem run_enforced (hadmitted : run.admitted.admission = some admission)
    (h : run.Contained admission) : run.Enforced admission := by
  constructor
  · intro promotion hpromotion
    unfold promotions at hpromotion
    split at hpromotion
    · cases hpromotion
    · rename_i result changeSet hprepare
      rcases List.mem_cons.mp hpromotion with rfl | hrepair
      · exact first_contained hadmitted hprepare
      · obtain ⟨repaired, hrepaired, hwithin, rfl⟩ :=
          repairPromotion_eq (Option.mem_toList.mp hrepair)
        exact .refl (h.repair result changeSet hprepare repaired hrepaired hwithin)
  · intro split hsplit file hgranted hclaims
    rcases split_eq hadmitted hsplit with ⟨-, hnone⟩ | ⟨parts, hsome, hparts⟩
    · cases hnone
    · obtain rfl := Option.some.inj hsome
      obtain ⟨-, -, hheld⟩ := split_passedOn hparts
      obtain ⟨_, _, es, hfilled, -, hescaped, -⟩ := splitChangeSet_filled hparts
      constructor
      · rintro patch hpatch rfl
        obtain ⟨collected, hcollected, hpath, hback⟩ := hheld patch hpatch
        rw [← hpath] at hgranted hclaims
        obtain ⟨hfile, hreached⟩ := h.grants collected hcollected hgranted hclaims
        rcases hback with hdeferred | ⟨-, hreaches⟩
        · exact hfile hdeferred
        · exact hreaches hreached
      · rw [hescaped, mem_sortStrings, mem_unique]
        exact fun hin => hfilled.notWrite file hin (.inl hclaims)

end TaskRun

/-! ## Two runs that do not enforce it -/

section
attribute [local instance] asciiRuntime

/-- `a.ts` is granted; `b.ts` and the function `bar` of `a.ts` are withheld. -/
def partialAdmission : PlanAdmission :=
  { sampleAdmission [] with
    deferredResources := some [⟨.file, "b.ts", ["other"], "held", false, none⟩,
      ⟨.symbol, "bar", ["other"], "held", false, some [⟨⟨20, 30⟩, "a.ts"⟩]⟩] }

def modified (file patch : String) : FilePatch := ⟨file, .modified, patch⟩

def clearOfBar : String := "@@ -2,1 +2,1 @@\n-x\n+y"

/-- An edit of a line of `bar`. -/
def insideBar : String := "@@ -25,1 +25,1 @@\n-x\n+y"

def handed (patches : List FilePatch) : ChangeSet := ⟨"changeset", "task", 1, "base", patches⟩

def grantOf (file : String) : MidRunDecision where
  request := .scopeChange { id := "s", taskId := "task", additionalFiles := [file], reason := "needed" }
  index := ⟨[], [], [], 0⟩
  granted := true
  leases := []

/-- A run that is admitted in part, whose integration collides on `a.ts`. -/
def runOf (decisions : List MidRunDecision) (patches repair : List FilePatch) : TaskRun where
  admitted := {
    taskId := "task"
    agentId := "agent"
    plan := samplePlan ["a.ts"]
    planRevision := 1
    admission := some partialAdmission }
  ground _ _ := .ok none
  decisions
  version := ⟨"base", 1⟩
  ranges _ := some []
  collected := handed patches
  freshId := "fresh"
  widened := true
  reviewed _ := true
  repairConflicts := true
  integration := some ⟨.conflict, none⟩
  repaired := some (handed repair)

def deferredPaths (run : TaskRun) : Option (List String) :=
  run.split.toOption.join.map fun split => split.deferred.map FilePatch.path

theorem toOption_join_eq_some {ε α : Type} {x : Except ε (Option α)} {a : α}
    (h : x.toOption.join = some a) : x = .ok (some a) := by
  cases x with
  | error e => cases h
  | ok value =>
    cases value with
    | none => cases h
    | some value =>
      obtain rfl := Option.some.inj h
      rfl

/-- A run that is granted `c.ts` and repairs `a.ts` outside `bar`. -/
theorem run_enforced_c :
    (runOf [grantOf "c.ts"] [modified "a.ts" clearOfBar, modified "b.ts" clearOfBar,
      modified "c.ts" clearOfBar] [modified "a.ts" clearOfBar]).Enforced partialAdmission := by
  have hdeferred (file : String) : FileDeferred partialAdmission file ↔ file ∈ ["b.ts"] :=
    fileDeferred_iff (by decide) file
  refine TaskRun.run_enforced rfl ⟨?_, ?_⟩
  · intro patch hpatch _ hclaims
    rw [claims_file_iff (show uniqueRepositoryPaths _ = .ok ["a.ts", "c.ts"] by decide)]
      at hclaims
    rw [hdeferred]
    have hall : ∀ patch ∈ [modified "a.ts" clearOfBar, modified "b.ts" clearOfBar,
        modified "c.ts" clearOfBar], patch.path ∈ ["a.ts", "c.ts"] → patch.path ∉ ["b.ts"] ∧
          reachedSymbols partialAdmission (some fun _ => some []) patch = [] := by
      decide
    exact hall patch hpatch hclaims
  · rintro result changeSet - repaired hrepaired - patch hpatch ⟨resource, hresource, -, hheld⟩
    obtain rfl := Option.some.inj hrepaired
    obtain rfl := List.mem_singleton.mp hpatch
    rcases hheld with ⟨htype, hpath⟩ | ⟨-, -, -, hreached⟩
    · have hnone : ∀ resource ∈ partialAdmission.deferred, resource.resourceType = .file →
          normalizeRepositoryPath resource.resourceId ≠ .ok "a.ts" := by
        decide
      exact hnone resource hresource htype hpath
    · have hclear : reachedSymbols partialAdmission (some fun _ => some [])
          (modified "a.ts" clearOfBar) = [] := by
        decide
      have hreached : resource.resourceId ∈ reachedSymbols partialAdmission (some fun _ => some [])
          (modified "a.ts" clearOfBar) := hreached
      rw [hclear] at hreached
      cases hreached

/-- **A file that was granted later is held back; and what repairs a collision is handed
over although it is withheld.** -/
theorem later_grant_held_back :
    ¬(runOf [grantOf "b.ts"] [modified "a.ts" clearOfBar, modified "b.ts" clearOfBar]
        []).Enforced partialAdmission ∧
      ¬(runOf [] [modified "a.ts" clearOfBar] [modified "a.ts" insideBar]).Enforced
        partialAdmission := by
  constructor
  · intro h
    have hpaths : deferredPaths (runOf [grantOf "b.ts"]
        [modified "a.ts" clearOfBar, modified "b.ts" clearOfBar] []) = some ["b.ts"] := by
      decide
    obtain ⟨split, hsplit, hpaths⟩ := Option.map_eq_some_iff.mp hpaths
    have hfiles : uniqueRepositoryPaths (runOf [grantOf "b.ts"] [modified "a.ts" clearOfBar,
        modified "b.ts" clearOfBar] []).task.plan.expectedFiles = .ok ["a.ts", "b.ts"] := by
      decide
    have hgranted := h.granted split (toOption_join_eq_some hsplit) "b.ts" ?_ ?_
    · obtain ⟨patch, hpatch, hpath⟩ := List.mem_map.mp
        (show "b.ts" ∈ split.deferred.map FilePatch.path by rw [hpaths]; decide)
      exact hgranted.1 patch hpatch hpath
    · refine ⟨[], grantOf "b.ts", [], rfl, rfl, ?_, (claims_file_iff hfiles).mpr (by decide)⟩
      rw [claims_file_iff (show uniqueRepositoryPaths _ = .ok ["a.ts"] by decide)]
      decide
    · exact (claims_file_iff hfiles).mpr (by decide)
  · intro h
    have hrepair := h.contained ⟨samplePlan ["a.ts"], handed [modified "a.ts" insideBar],
      handed [modified "a.ts" insideBar]⟩ (by decide)
    cases hrepair with
    | dropped _ hrest => cases hrest
    | whole hclear _ =>
      refine hclear ⟨_, .tail _ (.head _), ?_, .inr ⟨rfl, ?_, ?_, ?_⟩⟩
      · rintro ⟨earlier, decision, later, hdecisions, -⟩
        exact List.append_ne_nil_of_right_ne_nil earlier (List.cons_ne_nil decision later)
          hdecisions.symm
      · rw [fileDeferred_iff (show deferredFilePaths _ = .ok ["b.ts"] by decide)]
        decide
      · exact .inl ⟨["a.ts"], by decide, by decide⟩
      · decide
    | part hdivided _ =>
      have hheld : fateOfGranted partialAdmission (some fun _ => some [])
          (modified "a.ts" insideBar) = .held ["bar"] := by
        decide
      exact PatchFate.noConfusion (hheld.symm.trans hdivided)

end

end AgenticGit.Coordinator
