import AgenticGit.Shared.InterfaceScope
import AgenticGit.Coordinator.PlanAdmission

/- What an open branch holds: `BranchClaim` (`store.ts`), and
   `branchClaimsAsActivePlans` and `claimCrossesBranches` (`branch-claims.ts`).

   The first makes a plan of a claim, for the ladder that `interfaceScopeOf` reduces it for;
   the second is asked where nothing is planned. `Measured` and `NotMoved` say what the
   marks of a claim say, in the words of neither.

   What is proved:
     1. `notMoved_of_not_crosses` — **what the ladder would keep of a quiet claim, other than
        files, the branch did not move.**
     2. `interfaceFiles_kept` — the files it would keep are those that are an interface,
        and the branch changed every one of them.

   Correspondence (TypeScript ↔ Lean):
     `ClaimedRange`, its lines left out         ↔ `ClaimedRange`
     a shape's `file`, `shape`, `digest`, `inferred` and `consumers` are left out -/
namespace AgenticGit.Coordinator
open AgenticGit.Runtime AgenticGit.Shared

/-! ## Claims -/

structure ClaimedRange where
  file : String
  deriving DecidableEq, Repr

/-- One exported contract as a branch left it. -/
structure ClaimedShape where
  symbol : String
  /-- Whether canonical has it otherwise; absent where nobody compared. -/
  moved : Option Bool := none
  deriving DecidableEq, Repr

/-- The names a branch added or removed, against canonical, when measured. -/
structure MovedResources where
  apis : List String := []
  schemas : List String := []
  configKeys : List String := []
  services : List String := []
  deriving DecidableEq, Repr

structure BranchClaim where
  branch : String
  taskId : String
  symbols : List String := []
  apis : List String := []
  schemas : List String := []
  configKeys : List String := []
  services : List String := []
  movedResources : Option MovedResources := none
  ranges : List ClaimedRange := []
  shapes : List ClaimedShape := []
  deriving DecidableEq, Repr

def BranchClaim.plan (claim : BranchClaim) : AgentPlan where
  taskId := claim.taskId
  objective := "work already landed on " ++ claim.branch
  expectedFiles := unique (claim.ranges.map ClaimedRange.file)
  expectedSymbols := claim.symbols
  expectedApis := some claim.apis
  expectedSchemas := some claim.schemas
  expectedConfigKeys := some claim.configKeys
  expectedServices := some claim.services
  declared := some
    { symbols := some claim.symbols
      apis := some claim.apis
      schemas := some claim.schemas
      configKeys := some claim.configKeys
      services := some claim.services
      -- Empty rather than absent: it declared nothing.
      tests := some []
      dependencies := some [] }

/-- Branch claims, dressed as plans so the existing ladder can arbitrate them. -/
def branchClaimsAsActivePlans (claims : List BranchClaim) : List ActivePlan :=
  claims.map fun claim =>
    { taskId := claim.taskId, agentId := "branch:" ++ claim.branch, plan := claim.plan }

/-- Whether a dimension's names are ones this branch actually changed. -/
def namesCross (recorded : List String) (moved : Option (List String)) : Bool :=
  match moved with
  | none => 0 < recorded.length
  | some moved => 0 < moved.length

/-- Whether a claim's contracts are ones this branch actually moved. -/
def shapesCross (shapes : List ClaimedShape) : Bool :=
  if shapes.all fun shape => shape.moved.isSome then
    shapes.any fun shape => shape.moved = some true
  else 0 < shapes.length

/-- Whether what a branch holds could reach another branch at all. -/
def claimCrossesBranches (claim : BranchClaim) : Bool :=
  let moved := claim.movedResources
  namesCross claim.apis (moved.map MovedResources.apis) ||
    namesCross claim.schemas (moved.map MovedResources.schemas) ||
    namesCross claim.configKeys (moved.map MovedResources.configKeys) ||
    namesCross claim.services (moved.map MovedResources.services) || shapesCross claim.shapes

/-! ## What was measured -/

section

variable [TextRuntime]

/-- Everything a claim holds was compared, and every symbol is known. -/
structure Measured (symbols : SymbolVisibility) (claim : BranchClaim) : Prop where
  resources : claim.movedResources.isSome = true
  shapes : ∀ shape ∈ claim.shapes, shape.moved.isSome = true
  exported : ∀ name ∈ claim.symbols, symbolVisibilityKey name ∈ symbols.exported →
    ∃ shape ∈ claim.shapes, symbolVisibilityKey shape.symbol = symbolVisibilityKey name
  known : ∀ name ∈ claim.symbols, symbolVisibilityKey name ∈ symbols.known

def Unmoved (moved : List String) (name : String) : Prop :=
  ∀ other ∈ moved, toLowerCase (trim other) ≠ toLowerCase (trim name)

/-- The measurement says that the branch did not move a resource. A range is a change of its
file, and of tests nothing is measured. -/
def NotMoved (claim : BranchClaim) : ResourceType → String → Prop
  | .file, name => ∀ range ∈ claim.ranges, normalizeRepositoryPath range.file ≠ .ok name
  | .symbol, name =>
    (∃ shape ∈ claim.shapes, symbolVisibilityKey shape.symbol = symbolVisibilityKey name) ∧
      ∀ shape ∈ claim.shapes, symbolVisibilityKey shape.symbol = symbolVisibilityKey name →
        shape.moved = some false
  | .api, name => ∃ moved, claim.movedResources = some moved ∧ Unmoved moved.apis name
  | .schema, name => ∃ moved, claim.movedResources = some moved ∧ Unmoved moved.schemas name
  | .configuration, name =>
    ∃ moved, claim.movedResources = some moved ∧ Unmoved moved.configKeys name
  | .service, name => ∃ moved, claim.movedResources = some moved ∧ Unmoved moved.services name
  | .test, _ => False

/-- The files of a claim that are an interface, as a plan keeps them. -/
def BranchClaim.interfaceFiles (claim : BranchClaim) : Except PathError (List String) :=
  uniqueRepositoryPaths (claim.plan.expectedFiles.filter isInterfaceFile)

/-! ## A quiet claim -/

omit [TextRuntime] in
theorem moved_of_not_crosses {claim : BranchClaim} {moved : MovedResources}
    (hmoved : claim.movedResources = some moved) (h : claimCrossesBranches claim = false) :
    moved.apis = [] ∧ moved.schemas = [] ∧ moved.configKeys = [] ∧ moved.services = [] ∧
      shapesCross claim.shapes = false := by
  simp only [claimCrossesBranches, hmoved, Option.map_some, namesCross, Bool.or_eq_false_iff,
    decide_eq_false_iff_not, Nat.not_lt, Nat.le_zero, List.length_eq_zero_iff] at h
  tauto

omit [TextRuntime] in
theorem shape_of_not_crosses {shapes : List ClaimedShape}
    (hmarked : ∀ shape ∈ shapes, shape.moved.isSome = true) (h : shapesCross shapes = false)
    {shape : ClaimedShape} (hshape : shape ∈ shapes) : shape.moved = some false := by
  have hall : (shapes.all fun shape => shape.moved.isSome) = true := List.all_eq_true.mpr hmarked
  simp only [shapesCross, hall, if_true, List.any_eq_false, decide_eq_true_eq] at h
  rcases hmoved : shape.moved with _ | _ | _
  · have hsome := hmarked shape hshape
    rw [hmoved] at hsome
    cases hsome
  · rfl
  · exact absurd hmoved (h shape hshape)

theorem unmoved_nil (name : String) : Unmoved [] name := fun _ hother => by cases hother

/-- **What the ladder would keep of a quiet claim, files apart, the branch did not move.** -/
theorem notMoved_of_not_crosses {claim : BranchClaim} {symbols : SymbolVisibility}
    {shared : AgentPlan} (hm : Measured symbols claim) (h : claimCrossesBranches claim = false)
    (hshared : interfaceScopeOf claim.plan symbols = .ok (some shared)) {type : ResourceType}
    (hfile : type ≠ .file) {name : String} (hname : name ∈ shared.names .expected type) :
    NotMoved claim type name := by
  obtain ⟨moved, hmoved⟩ := Option.isSome_iff_exists.mp hm.resources
  obtain ⟨hapis, hschemas, hkeys, -, hshapes⟩ := moved_of_not_crosses hmoved h
  obtain ⟨id, hid, hcross, hkept⟩ := (mem_names_interfaceScopeOf hshared type).mp hname
  cases type with
  | file => exact absurd rfl hfile
  | api => exact ⟨moved, hmoved, hapis ▸ unmoved_nil name⟩
  | schema => exact ⟨moved, hmoved, hschemas ▸ unmoved_nil name⟩
  | configuration => exact ⟨moved, hmoved, hkeys ▸ unmoved_nil name⟩
  | test => cases hcross
  | service => cases hcross
  | symbol =>
    -- a known symbol crosses because it is exported, and then it has a shape
    have hkey : symbolVisibilityKey name = symbolVisibilityKey id := by
      rw [← hkept.1, symbolVisibilityKey, symbolVisibilityKey, trim_idem]
    simp only [crossesBranches, Bool.or_eq_true, decide_eq_true_eq] at hcross
    have hexported := hcross.resolve_right (not_not_intro (hm.known id hid))
    obtain ⟨shape, hshape, hsame⟩ := hm.exported id hid hexported
    exact ⟨⟨shape, hshape, hsame.trans hkey.symm⟩,
      fun other hother _ => shape_of_not_crosses hm.shapes hshapes hother⟩

theorem file_moved {claim : BranchClaim} {symbols : SymbolVisibility} {shared : AgentPlan}
    (hshared : interfaceScopeOf claim.plan symbols = .ok (some shared)) {name : String}
    (hname : name ∈ shared.names .expected .file) :
    (∃ files, claim.interfaceFiles = .ok files ∧ name ∈ files) ∧ ¬NotMoved claim .file name := by
  obtain ⟨id, hid, hcross, hkept⟩ := (mem_names_interfaceScopeOf hshared .file).mp hname
  obtain ⟨-, files, hfiles, rfl⟩ := assertAgentPlan_ok (interfaceScopeOf_some hshared)
  rw [show (claim.plan.narrow _).expectedFiles = _ from filter_keep_localResources .file] at hfiles
  refine ⟨⟨files, hfiles, hname⟩, fun hnot => ?_⟩
  obtain ⟨range, hrange, rfl⟩ := List.mem_map.mp (mem_unique.mp hid)
  exact hnot range hrange hkept

omit [TextRuntime] in
theorem matchesSchema_branchClaim {claim : BranchClaim} (h : claim.taskId ≠ "") :
    matchesSchema claim.plan = true := by
  have hobjective : trim ("work already landed on " ++ claim.branch) ≠ "" := by
    intro hempty
    rw [trim_eq_empty_iff, String.toList_append, List.all_append, Bool.and_eq_true] at hempty
    exact absurd hempty.1 (by decide)
  simp only [matchesSchema, BranchClaim.plan, ne_eq, h, hobjective, not_false_eq_true,
    decide_true, Option.all_none, Bool.and_self]

theorem interfaceFiles_kept {claim : BranchClaim} (symbols : SymbolVisibility)
    (htask : claim.taskId ≠ "") {files : List String} (hfiles : claim.interfaceFiles = .ok files)
    {file : String} (hfile : file ∈ files) :
    ∃ shared, interfaceScopeOf claim.plan symbols = .ok (some shared) ∧
      file ∈ shared.names .expected .file :=
  interfaceScopeOf_keeps (matchesSchema_branchClaim htask) hfiles hfile

end

end AgenticGit.Coordinator
