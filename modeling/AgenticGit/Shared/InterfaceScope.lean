import AgenticGit.Shared.ScopeChange

/- What a plan says to another branch: `isInterfaceFile`, `crossesBranches` and
   `interfaceScopeOf` of `shared-types`.

   What is proved:
     1. `mem_names_interfaceScopeOf` — **what is kept is what crosses**, as a plan keeps names.
     2. `interfaceScopeOf_keeps` — a file that crosses is kept, where the paths are valid.

   Correspondence (TypeScript ↔ Lean):
     the sets of a `SymbolVisibility`               ↔ lists
     `normalised.slice(normalised.lastIndexOf("/") + 1)` ↔ the last segment
     `/(?:^|\/)(?:migrations?|migrate|db\/migrate)\//u`  ↔ a segment before the last; one of
       `db/migrate/` is one of `migrate/` -/
namespace AgenticGit.Shared
open AgenticGit.Runtime

/-! ## What crosses -/

def interfaceManifests : List String :=
  ["package.json", "package-lock.json", "pnpm-lock.yaml", "pnpm-workspace.yaml", "yarn.lock",
    "npm-shrinkwrap.json", "cargo.toml", "cargo.lock", "go.mod", "go.sum", "requirements.txt",
    "pyproject.toml", "poetry.lock", "pipfile", "pipfile.lock", "gemfile", "gemfile.lock",
    "composer.json", "composer.lock", "build.gradle", "build.gradle.kts", "pom.xml", "mix.exs",
    "pubspec.yaml", "pubspec.lock"]

/-- The names of what this repository exports and of all it is known to declare, each as
`symbolVisibilityKey` spells it. -/
structure SymbolVisibility where
  exported : List String
  known : List String

section

variable [TextRuntime]

/-- Paths that are an interface whatever is written inside them. -/
def isInterfaceFile (filePath : String) : Bool :=
  let segments := (forwardSlashes (toLowerCase (trim filePath))).splitOn '/'
  let base := segments.getLastD []
  String.ofList base ∈ interfaceManifests ||
    segments.dropLast.any (fun segment =>
      String.ofList segment ∈ ["migration", "migrations", "migrate"]) ||
    [".csproj", ".vbproj", ".fsproj"].any fun extension => extension.toList <:+ base

/-- How a symbol name is spelled inside a `SymbolVisibility`. -/
def symbolVisibilityKey (name : String) : String := toLowerCase (trim name)

def crossesBranches (resource : PlanResourceRef) (symbols : SymbolVisibility) : Bool :=
  match resource.resourceType with
  | .api => true
  | .schema => true
  | .configuration => true
  | .file => isInterfaceFile resource.resourceId
  | .symbol =>
    let key := symbolVisibilityKey resource.resourceId
    key ∈ symbols.exported || key ∉ symbols.known
  | .test => false
  | .service => false

/-- `add`: the resources of one list that do not cross. -/
def localIn (symbols : SymbolVisibility) (resourceType : ResourceType) (ids : List String) :
    List PlanResourceRef :=
  (ids.map fun resourceId => ⟨resourceType, resourceId⟩).filter fun resource =>
    !crossesBranches resource symbols

def localResources (plan : AgentPlan) (symbols : SymbolVisibility) : List PlanResourceRef :=
  let add := localIn symbols
  let words := plan.declared.getD {}
  add .file plan.expectedFiles ++ add .symbol plan.expectedSymbols ++
    add .api (plan.expectedApis.getD []) ++ add .schema (plan.expectedSchemas.getD []) ++
    add .configuration (plan.expectedConfigKeys.getD []) ++
    add .test (plan.expectedTests.getD []) ++ add .service (plan.expectedServices.getD []) ++
    -- The agent's own words as well, or a claim survives its own reduction.
    add .symbol (words.symbols.getD []) ++ add .api (words.apis.getD []) ++
    add .schema (words.schemas.getD []) ++ add .configuration (words.configKeys.getD []) ++
    add .test (words.tests.getD []) ++ add .service (words.services.getD [])

/-- One plan as another branch sees it: only what crosses between them. -/
def interfaceScopeOf (plan : AgentPlan) (symbols : SymbolVisibility) :
    Except AgentPlanError (Option AgentPlan) := do
  let reduced ← reducePlanScope plan (localResources plan symbols)
  let claims := reduced.expectedFiles.length + reduced.expectedSymbols.length +
    (reduced.expectedApis.getD []).length + (reduced.expectedSchemas.getD []).length +
    (reduced.expectedConfigKeys.getD []).length
  return if claims = 0 then none else some reduced

/-! ## What is kept -/

variable {type : ResourceType} {symbols : SymbolVisibility} {resource : PlanResourceRef}
  {plan : AgentPlan}

theorem crossesBranches_congr {id other : String}
    (h : toLowerCase (trim id) = toLowerCase (trim other)) (symbols : SymbolVisibility) :
    crossesBranches ⟨type, id⟩ symbols = crossesBranches ⟨type, other⟩ symbols := by
  cases type with
  | file =>
    simp only [crossesBranches, isInterfaceFile]
    rw [h]
  | symbol =>
    show (decide (toLowerCase (trim id) ∈ symbols.exported) ||
      decide (toLowerCase (trim id) ∉ symbols.known)) = _
    rw [h]
    rfl
  | _ => rfl

theorem mem_localIn {ids : List String} : resource ∈ localIn symbols type ids ↔
      (resource.resourceType = type ∧ resource.resourceId ∈ ids) ∧
        crossesBranches resource symbols = false := by
  obtain ⟨resourceType, resourceId⟩ := resource
  simp only [localIn, List.mem_filter, List.mem_map, PlanResourceRef.mk.injEq,
    Bool.not_eq_true']
  constructor
  · rintro ⟨⟨id, hid, rfl, rfl⟩, hcross⟩
    exact ⟨⟨rfl, hid⟩, hcross⟩
  · rintro ⟨⟨rfl, hid⟩, hcross⟩
    exact ⟨⟨resourceId, hid, rfl, rfl⟩, hcross⟩

theorem not_crosses_of_mem (h : resource ∈ localResources plan symbols) :
    crossesBranches resource symbols = false := by
  simp only [localResources, List.mem_append, mem_localIn] at h
  tauto

theorem mem_localResources {id : String} (hid : id ∈ plan.names .expected type)
    (hlocal : crossesBranches ⟨type, id⟩ symbols = false) :
    ⟨type, id⟩ ∈ localResources plan symbols := by
  simp only [localResources, List.mem_append, mem_localIn]
  cases type <;> simp only [AgentPlan.names] at hid <;> simp [hid, hlocal]

/-- **A reduction to what crosses keeps a name exactly when it crosses.** -/
theorem keep_localResources {id : String} (hid : id ∈ plan.names .expected type) :
    keep (localResources plan symbols) type id = crossesBranches ⟨type, id⟩ symbols := by
  rw [Bool.eq_iff_iff, keep_iff]
  constructor
  · intro hnot
    by_contra hlocal
    exact hnot ⟨_, mem_localResources hid (eq_false_of_ne_true hlocal), rfl, rfl⟩
  · rintro hcross ⟨resource, hresource, rfl, hkey⟩
    have hlocal := not_crosses_of_mem hresource
    rw [crossesBranches_congr hkey symbols, hcross] at hlocal
    cases hlocal

theorem filter_keep_localResources (type : ResourceType) :
    (plan.names .expected type).filter (keep (localResources plan symbols) type) =
      (plan.names .expected type).filter fun id => crossesBranches ⟨type, id⟩ symbols :=
  List.filter_congr fun _ hid => keep_localResources hid

theorem interfaceScopeOf_some {plan shared : AgentPlan}
    (h : interfaceScopeOf plan symbols = .ok (some shared)) :
    reducePlanScope plan (localResources plan symbols) = .ok shared := by
  obtain ⟨reduced, hreduced, h⟩ := except_bind_ok h
  have h := Except.ok.inj h
  split at h
  · cases h
  · rw [← Option.some.inj h]
    exact hreduced

/-- **What `interfaceScopeOf` keeps is what crosses.** -/
theorem mem_names_interfaceScopeOf {plan shared : AgentPlan}
    (h : interfaceScopeOf plan symbols = .ok (some shared)) (type : ResourceType) {name : String} :
    name ∈ shared.names .expected type ↔
      ∃ id ∈ plan.names .expected type, crossesBranches ⟨type, id⟩ symbols = true ∧
        KeptAs type id name := by
  rw [mem_names_assertAgentPlan (interfaceScopeOf_some h) type, names_narrow,
    filter_keep_localResources]
  simp only [List.mem_filter, and_assoc]

theorem interfaceScopeOf_keeps {file : String} {files : List String}
    (hschema : matchesSchema plan = true)
    (hfiles : uniqueRepositoryPaths (plan.expectedFiles.filter isInterfaceFile) = .ok files)
    (hfile : file ∈ files) : ∃ shared, interfaceScopeOf plan symbols = .ok (some shared) ∧
      file ∈ shared.names .expected .file := by
  have hkept : (plan.narrow (keep (localResources plan symbols))).expectedFiles =
      plan.expectedFiles.filter isInterfaceFile := filter_keep_localResources .file
  have hschema : matchesSchema (plan.narrow (keep (localResources plan symbols))) = true :=
    hschema
  refine ⟨{ (plan.narrow (keep (localResources plan symbols))).tidy with
    expectedFiles := files }, ?_, hfile⟩
  simp only [interfaceScopeOf, reducePlanScope, assertAgentPlan, hschema, hkept, hfiles, if_true]
  refine congrArg Except.ok (if_neg ?_)
  have hlength := List.length_pos_of_mem hfile
  dsimp only
  omega

end

end AgenticGit.Shared
