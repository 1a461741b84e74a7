import AgenticGit.Shared.ChangeSet
import AgenticGit.CodeIntelligence.ReadSets

/- Whether a finished result is independent of what canonical moved to
   (`assessReplay` of `replay.ts`, over the advance as `canonicalAdvance` of
   `worker-operations.ts` computes it).

   The changed files come from Git; everything else an advance changed is read off the
   index of the revision it went TO. So what the check sees is what a changed file
   declares afterwards, and a resource the advance took away is in no list it reads.

   What is proved:
     1. `semantic_eq_nil_iff` — no semantic blocker means that nothing the plan claims or
        depends on shows in the advance, and nothing more.
     2. `replay_independent_iff` — that is independence of the advance exactly when
        something shows, or nothing the plan claims or depends on was lost.
     3. `renamed_symbol_unseen` — renaming a symbol the plan claims, in a file it does not
        declare, is no blocker.

   Correspondence (TypeScript ↔ Lean):
     `dependsOn.has(key(value)) || dependsOn.has(..)` ↔ `touched`
     a `ChangedResources`, and the Git file list      ↔ `CanonicalAdvance` -/
namespace AgenticGit.Coordinator.Replay
open AgenticGit.Runtime AgenticGit.Shared AgenticGit.CodeIntelligence

/-! ## The advance -/

/-- The resources one canonical advance changed. -/
structure CanonicalAdvance where
  changedFiles : List String
  changedSymbols : List String
  changedApis : List String
  changedSchemas : List String
  changedConfigKeys : List String
  changedTests : List String
  changedServices : List String
  deriving DecidableEq, Repr

structure ChangedResources where
  symbols : List String
  apis : List String
  schemas : List String
  configKeys : List String
  tests : List String
  services : List String
  deriving DecidableEq, Repr

/-- What the index lists for the files that changed. -/
def changedResources (changedFiles : List String) (index : RepositoryIndex) : ChangedResources :=
  let files := index.files.filter fun file => file.path ∈ changedFiles
  { symbols := uniqueStrings (files.flatMap IndexedFile.symbols)
    apis := uniqueStrings (files.flatMap IndexedFile.apis)
    schemas := uniqueStrings (files.flatMap IndexedFile.schemas)
    configKeys := uniqueStrings (files.flatMap IndexedFile.configKeys)
    tests := uniqueStrings (files.flatMap IndexedFile.tests)
    services := uniqueStrings (files.flatMap IndexedFile.services) }

/-- What an advance changed: the files Git lists, and what the index of the new revision
says of them. -/
def canonicalAdvance (changedFiles : List String) (index : RepositoryIndex) : CanonicalAdvance :=
  let changed := changedResources changedFiles index
  { changedFiles
    changedSymbols := changed.symbols
    changedApis := changed.apis
    changedSchemas := changed.schemas
    changedConfigKeys := changed.configKeys
    changedTests := changed.tests
    changedServices := changed.services }

/-! ## assessReplay -/

structure ReplayAssessment where
  semantic : List String
  textual : List String
  deriving DecidableEq, Repr

section
variable [TextRuntime]

def key (value : String) : String := toLowerCase (String.ofList (forwardSlashes (trim value)))

/-- The plan's dependencies name the resource, bare or under its type. -/
def touched (dependsOn : List String) (type : ResourceType) (value : String) : Bool :=
  key value ∈ dependsOn || type.name ++ ":" ++ key value ∈ dependsOn

def axis (dependsOn : List String) (type : ResourceType) (claimed changed : List String) :
    List String :=
  let owned := claimed.map key
  (changed.filter fun value => key value ∈ owned || touched dependsOn type value).map
    fun value => type.name ++ ":" ++ value

def assessReplay (plan : AgentPlan) (changeSet : ChangeSet) (advance : CanonicalAdvance) :
    ReplayAssessment :=
  let complete := completeAgentPlan plan
  let dependsOn := complete.dependencies.map key
  let files := (changeSet.patches.map FilePatch.path ++ complete.expectedFiles).map key
  -- a read set that could not be computed is not a read set of nothing
  let blind := plan.dependenciesUnknown
  let stale := fun file => blind || touched dependsOn .file file
  let semantic := (advance.changedFiles.filter stale).map fun file => "file:" ++ file
  let textual := (advance.changedFiles.filter fun file => !stale file && key file ∈ files).map
    fun file => "file:" ++ file
  { semantic := sortStrings (unique (semantic ++
      axis dependsOn .symbol complete.expectedSymbols advance.changedSymbols ++
      axis dependsOn .api complete.expectedApis advance.changedApis ++
      axis dependsOn .schema complete.expectedSchemas advance.changedSchemas ++
      axis dependsOn .configuration complete.expectedConfigKeys advance.changedConfigKeys ++
      axis dependsOn .test complete.expectedTests advance.changedTests ++
      axis dependsOn .service complete.expectedServices advance.changedServices))
    textual := sortStrings (unique textual) }

def notSpeculated (changed covered : List String) : List String :=
  changed.filter fun value => key value ∉ covered.map key

/-- What an actual advance still has that speculation did not already cover. -/
def residualAdvance (actual speculated : CanonicalAdvance) : CanonicalAdvance where
  changedFiles := notSpeculated actual.changedFiles speculated.changedFiles
  changedSymbols := notSpeculated actual.changedSymbols speculated.changedSymbols
  changedApis := notSpeculated actual.changedApis speculated.changedApis
  changedSchemas := notSpeculated actual.changedSchemas speculated.changedSchemas
  changedConfigKeys := notSpeculated actual.changedConfigKeys speculated.changedConfigKeys
  changedTests := notSpeculated actual.changedTests speculated.changedTests
  changedServices := notSpeculated actual.changedServices speculated.changedServices

/-- Whether every file speculation predicted appears in the advance. -/
def speculationLanded (speculated actual : CanonicalAdvance) : Bool :=
  speculated.changedFiles.all fun file => key file ∈ actual.changedFiles.map key

end

/-! ## What an index declares, and what a plan is concerned with -/

def listed (file : IndexedFile) : ResourceType → List String
  | .file => []
  | .symbol => file.symbols
  | .api => file.apis
  | .schema => file.schemas
  | .configuration => file.configKeys
  | .test => file.tests
  | .service => file.services

/-- One of the files declares the resource, under the name it goes by in a plan. -/
def Declared (index : RepositoryIndex) (files : List String) (type : ResourceType)
    (name : String) : Prop :=
  ∃ file ∈ index.files, file.path ∈ files ∧ ∃ value ∈ listed file type, KeptAs type value name

section
variable [TextRuntime]

def DependsOn (plan : AgentPlan) (type : ResourceType) (name : String) : Prop :=
  touched (plan.dependencies.map key) type name = true

def Concerned (plan : AgentPlan) (type : ResourceType) (name : String) : Prop :=
  key name ∈ (plan.names .expected type).map key ∨ DependsOn plan type name

/-- **The plan is independent of an advance** from the revision of `base` to that of `new`. -/
structure Independent (plan : AgentPlan) (base new : RepositoryIndex) (changed : List String) :
    Prop where
  sighted : plan.dependenciesUnknown = false
  imports : ∀ edge ∈ base.edges, edge.fromFile ∈ plan.expectedFiles →
    ∀ target, edge.toFile = some target → target ∉ changed
  before : ∀ type name, Concerned plan type name → ¬ Declared base changed type name
  after : ∀ type name, Concerned plan type name → ¬ Declared new changed type name

/-- Something shows in what the advance left behind: a file of it is one the plan depends
on, or it declares what the plan is concerned with. To a blind plan every file shows. -/
def Shows (plan : AgentPlan) (new : RepositoryIndex) (changed : List String) : Prop :=
  (plan.dependenciesUnknown = true ∧ changed ≠ []) ∨
    (∃ file ∈ changed, DependsOn plan .file file) ∨
    ∃ type name, Concerned plan type name ∧ Declared new changed type name

/-- The target of a declared file's edge is among the plan's dependencies as the check
looks it up: its edge was there to be enriched from, and its path folds under the prefix
as it does alone. -/
def Findable (before plan : AgentPlan) (edge : DependencyEdge) (target : String) : Prop :=
  (edge.fromFile ∈ before.expectedFiles ∧ key ("file:" ++ target) = "file:" ++ key target) ∨
    DependsOn plan .file target

/-- Nothing the plan is concerned with went without a trace. -/
structure NothingLost (before plan : AgentPlan) (base new : RepositoryIndex)
    (changed : List String) : Prop where
  sighted : plan.dependenciesUnknown = false
  imports : ∀ edge ∈ base.edges, edge.fromFile ∈ plan.expectedFiles →
    ∀ target ∈ changed, edge.toFile = some target → Findable before plan edge target
  resources : ∀ type name, Concerned plan type name → Declared base changed type name →
    ∃ again, key again = key name ∧ Declared new changed type again

/-! ## No semantic blocker -/

def CanonicalAdvance.names (advance : CanonicalAdvance) : ResourceType → List String
  | .file => advance.changedFiles
  | .symbol => advance.changedSymbols
  | .api => advance.changedApis
  | .schema => advance.changedSchemas
  | .configuration => advance.changedConfigKeys
  | .test => advance.changedTests
  | .service => advance.changedServices

theorem axis_eq_nil_iff {dependsOn : List String} {type : ResourceType}
    {claimed changed : List String} :
    axis dependsOn type claimed changed = [] ↔
      ∀ value ∈ changed, ¬ (key value ∈ claimed.map key ∨ touched dependsOn type value = true) := by
  simp only [axis, List.map_eq_nil_iff, List.filter_eq_nil_iff, Bool.or_eq_true,
    decide_eq_true_eq]

variable {changeSet : ChangeSet} {index : RepositoryIndex}

/-- **No semantic blocker**: no changed file is one the plan depends on or may depend on,
and no changed resource is one it is concerned with. -/
theorem semantic_eq_nil_iff {plan : AgentPlan} {advance : CanonicalAdvance} :
    (assessReplay plan changeSet advance).semantic = [] ↔
      (∀ file ∈ advance.changedFiles,
        plan.dependenciesUnknown = false ∧ ¬ DependsOn plan .file file) ∧
      ∀ type, type ≠ .file → ∀ name ∈ advance.names type, ¬ Concerned plan type name := by
  have hsort (values : List String) : sortStrings (unique values) = [] ↔ values = [] := by
    simp only [List.eq_nil_iff_forall_not_mem, mem_sortStrings, mem_unique]
  simp only [assessReplay, hsort, List.append_eq_nil_iff, axis_eq_nil_iff, List.map_eq_nil_iff,
    List.filter_eq_nil_iff, Bool.or_eq_true, and_assoc]
  refine and_congr ?_ ?_
  · simp only [not_or, Bool.not_eq_true, DependsOn, completeAgentPlan]
  · constructor
    · rintro ⟨hsymbol, hapi, hschema, hconfiguration, htest, hservice⟩ type htype
      cases type with
      | file => exact absurd rfl htype
      | symbol => exact hsymbol
      | api => exact hapi
      | schema => exact hschema
      | configuration => exact hconfiguration
      | test => exact htest
      | service => exact hservice
    · intro h
      exact ⟨h .symbol (by decide), h .api (by decide), h .schema (by decide),
        h .configuration (by decide), h .test (by decide), h .service (by decide)⟩

omit [TextRuntime] in
theorem mem_names_canonicalAdvance {changed : List String} {type : ResourceType}
    (htype : type ≠ .file) {name : String} :
    name ∈ (canonicalAdvance changed index).names type ↔ Declared index changed type name := by
  have hlist (lists : IndexedFile → List String) :
      name ∈ uniqueStrings
          ((index.files.filter fun file => file.path ∈ changed).flatMap lists) ↔
        ∃ file ∈ index.files, file.path ∈ changed ∧
          ∃ value ∈ lists file, KeptAs type value name := by
    simp only [mem_uniqueStrings_keptAs htype, List.mem_flatMap, List.mem_filter,
      decide_eq_true_eq]
    constructor
    · rintro ⟨value, ⟨file, ⟨hfile, hpath⟩, hvalue⟩, hkept⟩
      exact ⟨file, hfile, hpath, value, hvalue, hkept⟩
    · rintro ⟨file, hfile, hpath, value, hvalue, hkept⟩
      exact ⟨value, ⟨file, ⟨hfile, hpath⟩, hvalue⟩, hkept⟩
  cases type with
  | file => exact absurd rfl htype
  | symbol => exact hlist IndexedFile.symbols
  | api => exact hlist IndexedFile.apis
  | schema => exact hlist IndexedFile.schemas
  | configuration => exact hlist IndexedFile.configKeys
  | test => exact hlist IndexedFile.tests
  | service => exact hlist IndexedFile.services

omit [TextRuntime] in
theorem not_declared_file {files : List String} {name : String} :
    ¬ Declared index files .file name := by
  rintro ⟨file, -, -, value, hvalue, -⟩
  cases hvalue

theorem semantic_eq_nil_iff_not_shows {plan : AgentPlan} {new : RepositoryIndex}
    {changed : List String} :
    (assessReplay plan changeSet (canonicalAdvance changed new)).semantic = [] ↔
      ¬ Shows plan new changed := by
  rw [semantic_eq_nil_iff]
  constructor
  · rintro ⟨hfiles, hresources⟩ (⟨hblind, hchanged⟩ | ⟨file, hfile, hdepends⟩ |
      ⟨type, name, hconcerned, hdeclared⟩)
    · obtain ⟨file, hfile⟩ := List.exists_mem_of_ne_nil changed hchanged
      rw [(hfiles file hfile).1] at hblind
      cases hblind
    · exact (hfiles file hfile).2 hdepends
    · have htype : type ≠ .file := by
        rintro rfl
        exact not_declared_file hdeclared
      exact hresources type htype name ((mem_names_canonicalAdvance htype).mpr hdeclared)
        hconcerned
  · intro hshows
    obtain ⟨hblind, hshows⟩ := not_or.mp hshows
    obtain ⟨hfiles, hresources⟩ := not_or.mp hshows
    refine ⟨fun file hfile => ⟨?_, fun hdepends => hfiles ⟨file, hfile, hdepends⟩⟩, ?_⟩
    · exact Bool.eq_false_iff.mpr fun h => hblind ⟨h, List.ne_nil_of_mem hfile⟩
    · intro type htype name hname hconcerned
      exact hresources ⟨type, name, hconcerned, (mem_names_canonicalAdvance htype).mp hname⟩

/-! ## Independence -/

theorem concerned_congr {plan : AgentPlan} {type : ResourceType} {name again : String}
    (h : key again = key name) : Concerned plan type again ↔ Concerned plan type name := by
  rw [Concerned, Concerned, DependsOn, DependsOn, touched, touched, h]

theorem key_trim (value : String) : key (trim value) = key value := by
  rw [key, key, trim_idem]

theorem dependsOn_of_findable {before plan : AgentPlan} {base : RepositoryIndex}
    (h : enrichPlan before base = .ok plan) {edge : DependencyEdge} {target : String}
    (hedge : edge ∈ base.edges) (hto : edge.toFile = some target)
    (hfind : Findable before plan edge target) : DependsOn plan .file target := by
  rcases hfind with ⟨hfrom, hfold⟩ | hdepends
  · have hmem := mem_dependencies_enrichPlan h hedge hfrom hto
    have hkey : "file:" ++ key target ∈ plan.dependencies.map key := by
      rw [← hfold, ← key_trim]
      exact List.mem_map_of_mem hmem
    have hname : ResourceType.file.name ++ ":" = "file:" := rfl
    simp only [DependsOn, touched, hname, hkey, decide_true, Bool.or_true]
  · exact hdepends

/-- **No semantic blocker is independence of the advance exactly when something shows, or
nothing the plan is concerned with was lost.** -/
theorem replay_independent_iff {before plan : AgentPlan} {base new : RepositoryIndex}
    {changeSet : ChangeSet} {changed : List String} (h : enrichPlan before base = .ok plan) :
    ((assessReplay plan changeSet (canonicalAdvance changed new)).semantic = [] →
        Independent plan base new changed) ↔
      Shows plan new changed ∨ NothingLost before plan base new changed := by
  rw [semantic_eq_nil_iff_not_shows]
  constructor
  · intro hclaim
    by_cases hshows : Shows plan new changed
    · exact .inl hshows
    · have hindependent := hclaim hshows
      refine .inr ⟨hindependent.sighted, ?_, ?_⟩
      · intro edge hedge hfrom target htarget hto
        exact absurd htarget (hindependent.imports edge hedge hfrom target hto)
      · intro type name hconcerned hdeclared
        exact absurd hdeclared (hindependent.before type name hconcerned)
  · rintro (hshows | hkept) hnone
    · exact absurd hshows hnone
    · have hafter : ∀ type name, Concerned plan type name → ¬ Declared new changed type name :=
        fun type name hconcerned hdeclared =>
          hnone (.inr (.inr ⟨type, name, hconcerned, hdeclared⟩))
      refine ⟨hkept.sighted, ?_, ?_, hafter⟩
      · intro edge hedge hfrom target hto htarget
        have hfind := hkept.imports edge hedge hfrom target htarget hto
        exact hnone (.inr (.inl ⟨target, htarget, dependsOn_of_findable h hedge hto hfind⟩))
      · intro type name hconcerned hdeclared
        -- what is declared again under the same key shows
        obtain ⟨again, hkey, hagain⟩ := hkept.resources type name hconcerned hdeclared
        exact hafter type again ((concerned_congr hkey).mpr hconcerned) hagain

end

/-! ## A symbol that is renamed -/

section
attribute [local instance] asciiRuntime

/-- `b.ts` declares one symbol; nothing imports anything. -/
def indexWith (symbol : String) : RepositoryIndex where
  files := [{ path := "a.ts", language := .typescript, bytes := 10 },
    { path := "b.ts", language := .typescript, bytes := 10, symbols := [symbol] }]
  edges := []
  paths := ["a.ts", "b.ts"]
  skippedFiles := 0

/-- A plan over `a.ts` that also claims the symbol `total`. -/
def totalPlan : AgentPlan where
  taskId := "t"
  objective := "round the total"
  expectedFiles := ["a.ts"]
  expectedSymbols := ["total"]

def aPatch : ChangeSet := ⟨"c", "t", 1, "r1", [⟨"a.ts", .modified, "@@ -1,1 +1,1 @@\n-x\n+y"⟩]⟩

/-- An advance that changes the file of `total` and leaves it there is a blocker. -/
theorem replay_independent_kept :
    ∃ plan, enrichPlan totalPlan (indexWith "total") = .ok plan ∧
      ((assessReplay plan aPatch (canonicalAdvance ["b.ts"] (indexWith "Total"))).semantic = [] →
        Independent plan (indexWith "total") (indexWith "Total") ["b.ts"]) := by
  refine ⟨_, rfl, (@replay_independent_iff _ totalPlan _ _ _ _ _ rfl).mpr (.inl ?_)⟩
  refine .inr (.inr ⟨.symbol, "Total", .inl (by decide +kernel), ?_⟩)
  exact ⟨_, .tail _ (.head _), by decide, "Total", by decide, by decide, by decide⟩

/-- **A rename is no blocker**: the advance renames `total`, and nothing it is asked about
says so. -/
theorem renamed_symbol_unseen :
    ∃ plan, enrichPlan totalPlan (indexWith "total") = .ok plan ∧
      ¬ ((assessReplay plan aPatch (canonicalAdvance ["b.ts"] (indexWith "sum"))).semantic = [] →
        Independent plan (indexWith "total") (indexWith "sum") ["b.ts"]) := by
  refine ⟨_, rfl, fun hclaim => ?_⟩
  have hindependent := hclaim (by decide)
  refine hindependent.before .symbol "total" (.inl (by decide)) ?_
  exact ⟨_, .tail _ (.head _), by decide, "total", by decide, by decide, by decide⟩

end

end AgenticGit.Coordinator.Replay
