import Mathlib.Data.List.Infix
import AgenticGit.Shared.ScopeChange
import AgenticGit.CodeIntelligence.Build

/- A plan checked against the repository it is for: `enrichPlan` of
   `code-intelligence`, and as much of `groundPlan` as the plan's own lists show.

   What is proved:
     1. `mem_names_enrichPlan` — enrichment adds to a plan what the index attributes
        to the files it declares, and takes nothing away.
     2. `mem_names_verifyPlan` — so a widened plan that is verified names what the
        plan, the request and the index name, and nothing else.

   Correspondence (TypeScript ↔ Lean):
     `TEST_FILE_PATH.test(path)`           ↔ `isTestFilePath`
     the record `groundPlan` computes      ↔ `Grounding`: which real names it finds for a
       declared one is a parameter
     `intelligence.enrichPlan(groundPlan(plan, index), index)` ↔ `verifyPlan` -/
namespace AgenticGit.CodeIntelligence
open AgenticGit.Runtime AgenticGit.Shared

/-! ## The index -/

/-- The verdict on a plan's declarations; none when grounding is switched off. -/
abbrev Grounding := AgentPlan → RepositoryIndex → Except PathError (Option PlanGrounding)

variable [TextRuntime]

/-- Paths enrichment treats as tests in their own right: a directory or a file named
for tests, or a `.test.` or `.spec.` inside the name. -/
def isTestFilePath (path : String) : Bool :=
  ((path.toList.splitOn '/').any fun segment =>
    segment ∈ ["test".toList, "tests".toList, "__tests__".toList]) ||
    ".test.".toList <:+: path.toList || ".spec.".toList <:+: path.toList

/-- What the index attributes to one file, of one kind. -/
def IndexedFile.names (file : IndexedFile) : ResourceType → List String
  | .file => []
  | .symbol => file.symbols
  | .api => file.apis
  | .schema => file.schemas
  | .configuration => file.configKeys
  | .test => file.tests ++ if isTestFilePath file.path then [file.path] else []
  | .service => file.services

def RepositoryIndex.selected (index : RepositoryIndex) (plan : AgentPlan) : List IndexedFile :=
  index.files.filter fun file => file.path ∈ plan.expectedFiles

/-! ## enrichPlan -/

/-- The agent's own words, as they are kept before a plan is widened. -/
def declarationsOf (plan : AgentPlan) : PlanDeclarations where
  symbols := some plan.expectedSymbols
  dependencies := some plan.dependencies
  apis := some (plan.expectedApis.getD [])
  schemas := some (plan.expectedSchemas.getD [])
  configKeys := some (plan.expectedConfigKeys.getD [])
  tests := some (plan.expectedTests.getD [])
  services := some (plan.expectedServices.getD [])

def RepositoryIndex.dependencyFiles (index : RepositoryIndex) (plan : AgentPlan) : List String :=
  (index.edges.filter fun edge => edge.fromFile ∈ plan.expectedFiles).filterMap fun edge =>
    edge.toFile.map fun file => "file:" ++ file

/-- The plan has source files, and nothing says what they depend on. -/
def RepositoryIndex.blind (index : RepositoryIndex) (plan : AgentPlan) : Bool :=
  plan.expectedFiles.any (fun file => (languageOf file).isSome) &&
    ((index.selected plan).isEmpty || (index.selected plan).any IndexedFile.importsUnknown)

/-- Conservatively projects indexed resources for every file an agent plans to modify. -/
def enrichPlan (plan : AgentPlan) (index : RepositoryIndex) : Except PathError AgentPlan := do
  let files := index.selected plan
  let expectedFiles ← uniqueRepositoryPaths plan.expectedFiles
  return { plan with
    expectedFiles
    -- the first enrichment wins
    declared := some (plan.declared.getD (declarationsOf plan))
    expectedSymbols :=
      uniqueStrings (plan.expectedSymbols ++ files.flatMap IndexedFile.symbols)
    expectedApis :=
      some (uniqueStrings (plan.expectedApis.getD [] ++ files.flatMap IndexedFile.apis))
    expectedSchemas :=
      some (uniqueStrings (plan.expectedSchemas.getD [] ++ files.flatMap IndexedFile.schemas))
    expectedConfigKeys :=
      some (uniqueStrings (plan.expectedConfigKeys.getD [] ++ files.flatMap IndexedFile.configKeys))
    expectedTests :=
      some (uniqueStrings (plan.expectedTests.getD [] ++ files.flatMap IndexedFile.tests ++
        (files.filter fun file => isTestFilePath file.path).map IndexedFile.path))
    expectedServices :=
      some (uniqueStrings (plan.expectedServices.getD [] ++ files.flatMap IndexedFile.services))
    dependencies :=
      uniqueStrings (plan.dependencies ++ index.dependencyFiles plan ++
        files.flatMap IndexedFile.dependencies ++
        files.flatMap fun file => file.referencedSymbols.map fun symbol => "symbol:" ++ symbol)
    dependenciesUnknown := plan.dependenciesUnknown || index.blind plan
    intent := some (plan.intent.getD plan.objective) }

/-- Returns the plan with a freshly computed grounding record. -/
def groundPlan (ground : Grounding) (plan : AgentPlan) (index : RepositoryIndex) :
    Except PathError AgentPlan := do
  let grounding ← ground plan index
  return { plan with grounding }

def verifyPlan (ground : Grounding) (plan : AgentPlan) (index : RepositoryIndex) :
    Except PathError AgentPlan := do
  enrichPlan (← groundPlan ground plan index) index

/-! ## What a plan names afterwards -/

variable {ground : Grounding} {index : RepositoryIndex} {plan enriched : AgentPlan}

omit [TextRuntime] in
theorem names_groundPlan {plan grounded : AgentPlan}
    (h : groundPlan ground plan index = .ok grounded) (type : ResourceType) :
    grounded.names .expected type = plan.names .expected type := by
  unfold groundPlan at h
  obtain ⟨grounding, -, h⟩ := except_bind_ok h
  obtain rfl := Except.ok.inj h
  cases type <;> rfl

omit [TextRuntime] in
theorem mem_tests {files : List IndexedFile} {value : String} :
    value ∈ files.flatMap IndexedFile.tests ++
        (files.filter fun file => isTestFilePath file.path).map IndexedFile.path ↔
      ∃ file ∈ files, value ∈ file.names .test := by
  simp only [List.mem_append, List.mem_flatMap, List.mem_map, List.mem_filter, IndexedFile.names]
  constructor
  · rintro (⟨file, hfile, hvalue⟩ | ⟨file, ⟨hfile, htest⟩, rfl⟩)
    · exact ⟨file, hfile, .inl hvalue⟩
    · exact ⟨file, hfile, .inr (by simp [htest])⟩
  · rintro ⟨file, hfile, hvalue | hvalue⟩
    · exact .inl ⟨file, hfile, hvalue⟩
    · split at hvalue
      · rename_i htest
        exact .inr ⟨file, ⟨hfile, htest⟩, (List.mem_singleton.mp hvalue).symm⟩
      · cases hvalue

/-- **Enrichment adds what the index attributes to the plan's files.** -/
theorem mem_names_enrichPlan (h : enrichPlan plan index = .ok enriched) {type : ResourceType}
    (htype : type ≠ .file) {name : String} : name ∈ enriched.names .expected type ↔
      ∃ value, (value ∈ plan.names .expected type ∨
        ∃ file ∈ index.selected plan, value ∈ file.names type) ∧ KeptAs type value name := by
  unfold enrichPlan at h
  obtain ⟨files, -, h⟩ := except_bind_ok h
  obtain rfl := Except.ok.inj h
  have hadded : ∀ (own : List String) (indexed : IndexedFile → List String),
      name ∈ uniqueStrings (own ++ (index.selected plan).flatMap indexed) ↔
        ∃ value, (value ∈ own ∨ ∃ file ∈ index.selected plan, value ∈ indexed file) ∧
          KeptAs type value name := by
    intro own indexed
    simp only [mem_uniqueStrings_keptAs htype, List.mem_append, List.mem_flatMap]
  cases type with
  | file => exact absurd rfl htype
  | symbol => exact hadded _ _
  | api => exact hadded _ _
  | schema => exact hadded _ _
  | configuration => exact hadded _ _
  | test =>
    show name ∈ uniqueStrings _ ↔ _
    rw [mem_uniqueStrings_keptAs htype, List.append_assoc]
    simp only [List.mem_append (s := plan.expectedTests.getD []), mem_tests]
    rfl
  | service => exact hadded _ _

theorem expectedFiles_enrichPlan (h : enrichPlan plan index = .ok enriched)
    (hc : Canonical plan.expectedFiles) : enriched.expectedFiles = plan.expectedFiles := by
  unfold enrichPlan at h
  obtain ⟨files, hfiles, h⟩ := except_bind_ok h
  obtain rfl := Except.ok.inj h
  exact hc.eq_self hfiles

/-- What a plan, a request to widen it and the index call a resource of one kind. -/
def Offers (plan : AgentPlan) (request : ScopeChangeRequest) (index : RepositoryIndex)
    (type : ResourceType) (value : String) : Prop :=
  value ∈ plan.names .expected type ++ request.names type ∨
    ∃ file ∈ index.files, value ∈ file.names type ∧
      ∃ named ∈ plan.expectedFiles ++ request.additionalFiles,
        normalizeRepositoryPath named = .ok file.path

/-- **A widened plan that is verified names what the plan, the request and the index
offer.** -/
theorem mem_names_verifyPlan {plan widened verified : AgentPlan} {request : ScopeChangeRequest}
    (hm : mergePlanScope plan request = .ok widened)
    (hv : verifyPlan ground widened index = .ok verified) (type : ResourceType) {name : String} :
    name ∈ verified.names .expected type ↔
      ∃ value, Offers plan request index type value ∧ KeptAs type value name := by
  unfold verifyPlan at hv
  obtain ⟨grounded, hg, he⟩ := except_bind_ok hv
  have hnames := names_groundPlan hg
  have hgrounded : grounded.expectedFiles = widened.expectedFiles := hnames .file
  have hfiles : ∀ path, path ∈ widened.expectedFiles ↔
      ∃ named ∈ plan.expectedFiles ++ request.additionalFiles,
        normalizeRepositoryPath named = .ok path :=
    fun path => mem_names_mergePlanScope hm .file
  by_cases htype : type = .file
  · subst htype
    show name ∈ verified.expectedFiles ↔ _
    rw [expectedFiles_enrichPlan he (hgrounded ▸ mergePlanScope_canonical hm), hgrounded]
    refine (hfiles name).trans ⟨?_, ?_⟩
    · rintro ⟨value, hvalue, hname⟩
      exact ⟨value, .inl hvalue, hname⟩
    · rintro ⟨value, hvalue | ⟨file, -, hnone, -⟩, hname⟩
      · exact ⟨value, hvalue, hname⟩
      · cases hnone
  · rw [mem_names_enrichPlan he htype]
    have hselected : ∀ file, file ∈ index.selected grounded ↔
        file ∈ index.files ∧ file.path ∈ widened.expectedFiles := by
      intro file
      simp only [RepositoryIndex.selected, List.mem_filter, decide_eq_true_eq, hgrounded]
    have hwidened : ∀ value, value ∈ grounded.names .expected type ↔
        ∃ given ∈ plan.names .expected type ++ request.names type, KeptAs type given value := by
      intro value
      rw [hnames]
      exact mem_names_mergePlanScope hm type
    constructor
    · rintro ⟨value, hvalue | ⟨file, hfile, hvalue⟩, hname⟩
      · obtain ⟨given, hgiven, hkept⟩ := (hwidened value).mp hvalue
        obtain rfl := (hkept.idem htype).mp hname
        exact ⟨given, .inl hgiven, hkept⟩
      · obtain ⟨hin, hpath⟩ := (hselected file).mp hfile
        exact ⟨value, .inr ⟨file, hin, hvalue, (hfiles file.path).mp hpath⟩, hname⟩
    · rintro ⟨value, hvalue | ⟨file, hin, hvalue, hpath⟩, hname⟩
      · exact ⟨name, .inl ((hwidened name).mpr ⟨value, hvalue, hname⟩),
          (hname.idem htype).mpr rfl⟩
      · exact ⟨value, .inr ⟨file, (hselected file).mpr ⟨hin, (hfiles file.path).mpr hpath⟩, hvalue⟩,
          hname⟩

end AgenticGit.CodeIntelligence

namespace AgenticGit.CodeIntelligence
open AgenticGit.Runtime AgenticGit.Shared

section
attribute [local instance] asciiRuntime

def planOnA : AgentPlan :=
  { taskId := "t", objective := "total", expectedFiles := ["a.ts"], expectedSymbols := [" total "] }

def withNote : ScopeChangeRequest :=
  { id := "r", taskId := "t", additionalFiles := ["./note.ts"], reason := "audit" }

def noteIndex : RepositoryIndex :=
  ⟨[{ path := "note.ts", language := .typescript, bytes := 9, symbols := ["note"] }], [], [], 0⟩

/-- What a file that was asked for declares comes with it. -/
theorem mem_names_verifyPlan_note : ∃ widened verified,
    mergePlanScope planOnA withNote = .ok widened ∧
      verifyPlan (fun _ _ => .ok none) widened noteIndex = .ok verified ∧
      verified.expectedSymbols = ["note", "total"] ∧
      ∃ value, Offers planOnA withNote noteIndex .symbol value ∧ KeptAs .symbol value "note" := by
  refine ⟨_, _, rfl, rfl, by decide, ?_⟩
  exact (@mem_names_verifyPlan _ (fun _ _ => .ok none) noteIndex planOnA _ _ withNote rfl rfl
    .symbol "note").mp (by decide)

end

end AgenticGit.CodeIntelligence
