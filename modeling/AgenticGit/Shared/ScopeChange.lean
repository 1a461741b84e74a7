import AgenticGit.Shared.PlanScope

/- Widening a plan mid-run: `ScopeChangeRequest` and `mergePlanScope` of
   `shared-types`.

   What is proved:
     1. `mem_names_mergePlanScope` — a widened plan names what the plan and the
        request name, and nothing else.

   Correspondence (TypeScript ↔ Lean):
     the object literal `revised`  ↔ `AgentPlan.widen`
     a request's `occurredAt`      is left out -/
namespace AgenticGit.Shared
open AgenticGit.Runtime

structure ScopeChangeRequest where
  id : String
  taskId : String
  additionalFiles : List String := []
  additionalSymbols : List String := []
  additionalApis : List String := []
  additionalSchemas : List String := []
  additionalConfigKeys : List String := []
  additionalTests : List String := []
  additionalServices : List String := []
  reason : String
  deriving DecidableEq, Repr

def ScopeChangeRequest.names (request : ScopeChangeRequest) : ResourceType → List String
  | .file => request.additionalFiles
  | .symbol => request.additionalSymbols
  | .api => request.additionalApis
  | .schema => request.additionalSchemas
  | .configuration => request.additionalConfigKeys
  | .test => request.additionalTests
  | .service => request.additionalServices

/-- The agent's own words widen with the approval: a snapshot that names symbols is
extended, an absent or empty one stays as it is. -/
def PlanDeclarations.widen (request : ScopeChangeRequest) (declared : PlanDeclarations) :
    PlanDeclarations :=
  match declared.symbols with
  | none => declared
  | some [] => declared
  | some symbols =>
    { declared with symbols := some (uniqueStrings (symbols ++ request.additionalSymbols)) }

/-- The plan with a request's names in it; `expectedFiles` are its normalized paths. -/
def AgentPlan.widen (plan : AgentPlan) (request : ScopeChangeRequest)
    (expectedFiles : List String) : AgentPlan :=
  { plan with
    expectedFiles
    expectedSymbols := uniqueStrings (plan.expectedSymbols ++ request.additionalSymbols)
    expectedApis := some (uniqueStrings (plan.expectedApis.getD [] ++ request.additionalApis))
    expectedSchemas :=
      some (uniqueStrings (plan.expectedSchemas.getD [] ++ request.additionalSchemas))
    expectedConfigKeys :=
      some (uniqueStrings (plan.expectedConfigKeys.getD [] ++ request.additionalConfigKeys))
    expectedTests := some (uniqueStrings (plan.expectedTests.getD [] ++ request.additionalTests))
    expectedServices :=
      some (uniqueStrings (plan.expectedServices.getD [] ++ request.additionalServices))
    declared := plan.declared.map (PlanDeclarations.widen request) }

def mergePlanScope (plan : AgentPlan) (request : ScopeChangeRequest) :
    Except AgentPlanError AgentPlan :=
  match uniqueRepositoryPaths (plan.expectedFiles ++ request.additionalFiles) with
  | .error error => .error (.path error)
  | .ok expectedFiles => assertAgentPlan (plan.widen request expectedFiles)

/-! ## Names, as a plan keeps them -/

/-- How a name of one kind is kept in a plan: a file as its normalized path, anything
else trimmed, if something is left. -/
def KeptAs : ResourceType → String → String → Prop
  | .file, value, name => normalizeRepositoryPath value = .ok name
  | _, value, name => trim value = name ∧ name ≠ ""

variable {type : ResourceType} {plan widened : AgentPlan} {request : ScopeChangeRequest}

theorem keptAs_of_ne_file (h : type ≠ .file) {value name : String} :
    KeptAs type value name ↔ trim value = name ∧ name ≠ "" := by
  cases type with
  | file => exact absurd rfl h
  | _ => rfl

theorem mem_uniqueStrings_keptAs (h : type ≠ .file) {values : List String} {name : String} :
    name ∈ uniqueStrings values ↔ ∃ value ∈ values, KeptAs type value name := by
  simp only [mem_uniqueStrings, keptAs_of_ne_file h]
  constructor
  · rintro ⟨⟨value, hvalue, htrim⟩, hne⟩
    exact ⟨value, hvalue, htrim, hne⟩
  · rintro ⟨value, hvalue, htrim, hne⟩
    exact ⟨⟨value, hvalue, htrim⟩, hne⟩

theorem KeptAs.idem (h : type ≠ .file) {value name again : String} (hk : KeptAs type value name) :
    KeptAs type name again ↔ again = name := by
  rw [keptAs_of_ne_file h] at hk ⊢
  obtain ⟨rfl, hne⟩ := hk
  rw [trim_idem]
  constructor
  · intro ha
    exact ha.1.symm
  · rintro rfl
    exact ⟨rfl, hne⟩

theorem mem_names_assertAgentPlan {plan asserted : AgentPlan}
    (h : assertAgentPlan plan = .ok asserted) (type : ResourceType) {name : String} :
    name ∈ asserted.names .expected type ↔
      ∃ value ∈ plan.names .expected type, KeptAs type value name := by
  obtain ⟨-, files, hfiles, rfl⟩ := assertAgentPlan_ok h
  have hoption : ∀ values : Option (List String),
      (values.map uniqueStrings).getD [] = uniqueStrings (values.getD []) := by
    intro values
    cases values <;> rfl
  cases type with
  | file => exact mem_uniqueRepositoryPaths hfiles
  | symbol => exact mem_uniqueStrings_keptAs (by decide)
  | _ =>
    simp only [AgentPlan.names, AgentPlan.tidy, hoption]
    exact mem_uniqueStrings_keptAs (by decide)

/-- **A widened plan names what the plan and the request name.** -/
theorem mem_names_mergePlanScope (h : mergePlanScope plan request = .ok widened)
    (type : ResourceType) {name : String} : name ∈ widened.names .expected type ↔
      ∃ value ∈ plan.names .expected type ++ request.names type, KeptAs type value name := by
  unfold mergePlanScope at h
  split at h
  · cases h
  · rename_i files hfiles
    obtain ⟨-, files', hfiles', rfl⟩ := assertAgentPlan_ok h
    obtain rfl : files' = files :=
      (uniqueRepositoryPaths_canonical hfiles).eq_self hfiles'
    have hnames : ∀ values : List String, type ≠ .file →
        (name ∈ uniqueStrings (uniqueStrings values) ↔
          ∃ value ∈ values, KeptAs type value name) := by
      intro values htype
      rw [uniqueStrings_idem, mem_uniqueStrings_keptAs htype]
    cases type with
    | file => exact mem_uniqueRepositoryPaths hfiles
    | symbol => exact hnames _ (by decide)
    | api => exact hnames _ (by decide)
    | schema => exact hnames _ (by decide)
    | configuration => exact hnames _ (by decide)
    | test => exact hnames _ (by decide)
    | service => exact hnames _ (by decide)

theorem mergePlanScope_canonical (h : mergePlanScope plan request = .ok widened) :
    Canonical widened.expectedFiles := by
  unfold mergePlanScope at h
  split at h
  · cases h
  · exact (assertAgentPlan_asserted h).files

end AgenticGit.Shared
