import AgenticGit.CodeIntelligence.EnrichPlan

/- What a plan is said to depend on, against what was read of its files: the flag
   `dependenciesUnknown` of `enrichPlan` over an index as `build` makes it.

   What is proved:
     1. `read_set_complete_iff` — when an enriched plan does not say that its
        dependencies are unknown, every source file it declares is indexed with the
        imports its language's reader produced, exactly when no declared source file
        is missing from the index beside an indexed one and none of them is one of
        those whose reader fails without a word.
     2. `new_file_beside_read_one` — a new file beside one that was read passes.

   Correspondence (TypeScript ↔ Lean):
     the list a language's reader produces ↔ `Readers.importsOf`
     a parse remembered from an earlier build or from the file on disk ↔ whether its
       imports came from a reader is `fromReader`, of the entry -/
namespace AgenticGit.CodeIntelligence
open AgenticGit.Runtime AgenticGit.Shared

section
variable {Source : Type} [TextRuntime] (readers : Readers Source) (attempt : Attempt)
  (fromReader : RepositoryFileEntry → Prop)

/-! ## Imports that were read -/

def specifiersOf (imports : List WrittenImport) : List String := (keptImports imports).map Prod.snd

/-- The import list a language's reader produces, when it does. A data format has no
imports; nothing reads Swift's. -/
def Readers.importsOf (path : String) (source : Source) (language : SupportedLanguage) :
    Option (List String) :=
  match language with
  | .typescript | .javascript =>
    (if attempt.walked path then readers.analyzeScript path source language else none).map
      IndexedFile.imports
  | .python =>
    (if attempt.answered path then readers.readPython source else none).map PythonAnswer.imports
  | .ruby => (readers.readRubyRequires source).map fun requires =>
      specifiersOf (requires.map fun request =>
        (some (if request.1 then "rel" else "lib"), request.2))
  | .java | .kotlin | .scala => (readers.readJvmHeader source language).map fun header =>
      specifiersOf (header.imports.map fun name => (none, name))
  | .c | .cpp => (readers.readIncludes source).map fun paths =>
      specifiersOf (paths.map fun name => (none, name))
  | .csharp => (readers.readCSharpLoads source).map fun paths =>
      specifiersOf (paths.map fun name => (none, name))
  | .rust => (readers.readRustFile source).map fun facts =>
      specifiersOf (facts.modules.map Readers.writtenModule ++
        facts.uses.map fun name => (none, name))
  | .go => (readers.readGoFile source).map fun facts =>
      specifiersOf (facts.imports.map fun name => (none, name))
  | .php => (readers.readPhpFile source).map fun unit =>
      specifiersOf (unit.uses.map (fun name => (some "use", name)) ++
        unit.requires.map fun name => (some "req", name))
  | .swift => none
  | .json | .yaml | .sql | .prisma => some []

/-- The languages whose reader may fail without a word: the file is then indexed as one
that imports nothing. -/
def failsSilently : List SupportedLanguage :=
  [.python, .java, .kotlin, .scala, .c, .cpp, .csharp, .rust, .swift]

def Produced (slot : Slot Source) : Prop :=
  match slot.content with
  | .unreadable => False
  | .remembered _ => fromReader slot.entry
  | .fresh source => readers.importsOf attempt slot.entry.path source slot.language =
      some (fileOf readers attempt slot).imports

/-- The slot's import list was not read, and the file does not say so. -/
def SilentlyUnread (slot : Slot Source) : Prop :=
  match slot.content with
  | .unreadable => False
  | .remembered file => ¬ fromReader slot.entry ∧ file.importsUnknown = false
  | .fresh source => slot.language ∈ failsSilently ∧
      readers.importsOf attempt slot.entry.path source slot.language = none

instance [DecidablePred fromReader] (slot : Slot Source) :
    Decidable (SilentlyUnread readers attempt fromReader slot) :=
  match slot with
  | ⟨_, _, .unreadable⟩ => .isFalse id
  | ⟨entry, _, .remembered file⟩ =>
    inferInstanceAs (Decidable (¬ fromReader entry ∧ file.importsUnknown = false))
  | ⟨entry, language, .fresh source⟩ =>
    inferInstanceAs (Decidable (language ∈ failsSilently ∧
      readers.importsOf attempt entry.path source language = none))

omit [TextRuntime] in
/-- A reader that answers is believed; one that does not leaves a mark, or is one of those
that fail without a word. -/
theorem analyze_imports (path : String) (source : Source) (language : SupportedLanguage) :
    (∃ imports, readers.importsOf attempt path source language = some imports ∧
        (readers.analyze attempt path source language).imports = imports) ∨
      (readers.importsOf attempt path source language = none ∧
        (language ∈ failsSilently ∨
          (readers.analyze attempt path source language).importsUnknown = true)) := by
  have hscript : ∀ script : SupportedLanguage,
      (∃ imports, (if attempt.walked path then readers.analyzeScript path source script
          else none).map IndexedFile.imports = some imports ∧
        (readers.analyzeScriptFile attempt path source script).imports = imports) ∨
      ((if attempt.walked path then readers.analyzeScript path source script
          else none).map IndexedFile.imports = none ∧
        (script ∈ failsSilently ∨
          (readers.analyzeScriptFile attempt path source script).importsUnknown = true)) := by
    intro script
    unfold Readers.analyzeScriptFile
    cases if attempt.walked path then readers.analyzeScript path source script else none with
    | none => exact .inr ⟨rfl, .inr rfl⟩
    | some file => exact .inl ⟨_, rfl, rfl⟩
  have hjvm : ∀ jvm ∈ jvmLanguages,
      (∃ imports, (readers.readJvmHeader source jvm).map (fun header =>
          specifiersOf (header.imports.map fun name => (none, name))) = some imports ∧
        (readers.analyzeJvmFile path source jvm).imports = imports) ∨
      ((readers.readJvmHeader source jvm).map (fun header =>
          specifiersOf (header.imports.map fun name => (none, name))) = none ∧
        (jvm ∈ failsSilently ∨
          (readers.analyzeJvmFile path source jvm).importsUnknown = true)) := by
    intro jvm hmem
    unfold Readers.analyzeJvmFile
    cases readers.readJvmHeader source jvm with
    | none =>
      refine .inr ⟨rfl, .inl ?_⟩
      revert hmem jvm
      decide
    | some header => exact .inl ⟨_, rfl, rfl⟩
  have hpaths : ∀ (scanned : SupportedLanguage) (paths : Option (List String)),
      scanned ∈ failsSilently →
      (∃ imports, paths.map (fun paths => specifiersOf (paths.map fun name => (none, name))) =
          some imports ∧
        (readers.analyzePathsFile path source scanned paths).imports = imports) ∨
      (paths.map (fun paths => specifiersOf (paths.map fun name => (none, name))) = none ∧
        (scanned ∈ failsSilently ∨
          (readers.analyzePathsFile path source scanned paths).importsUnknown = true)) := by
    intro scanned paths hscanned
    cases paths with
    | none => exact .inr ⟨rfl, .inl hscanned⟩
    | some paths => exact .inl ⟨_, rfl, rfl⟩
  cases language with
  | typescript => exact hscript .typescript
  | javascript => exact hscript .javascript
  | python =>
    show (∃ imports, Option.map _ _ = some imports ∧
      (readers.analyzePythonFile attempt path source).imports = imports) ∨ _
    unfold Readers.importsOf Readers.analyzePythonFile
    cases if attempt.answered path then readers.readPython source else none with
    | none => exact .inr ⟨rfl, .inl (by decide)⟩
    | some answer => exact .inl ⟨_, rfl, rfl⟩
  | ruby =>
    unfold Readers.importsOf Readers.analyze Readers.analyzeRubyFile
    cases readers.readRubyRequires source with
    | none => exact .inr ⟨rfl, .inr rfl⟩
    | some requires => exact .inl ⟨_, rfl, rfl⟩
  | go =>
    unfold Readers.importsOf Readers.analyze Readers.analyzeGoFile
    cases readers.readGoFile source with
    | none => exact .inr ⟨rfl, .inr rfl⟩
    | some facts => exact .inl ⟨_, rfl, rfl⟩
  | rust =>
    unfold Readers.importsOf Readers.analyze Readers.analyzeRustFile
    cases readers.readRustFile source with
    | none => exact .inr ⟨rfl, .inl (by decide)⟩
    | some facts => exact .inl ⟨_, rfl, rfl⟩
  | java => exact hjvm .java (by decide)
  | kotlin => exact hjvm .kotlin (by decide)
  | scala => exact hjvm .scala (by decide)
  | c => exact hpaths .c (readers.readIncludes source) (by decide)
  | cpp => exact hpaths .cpp (readers.readIncludes source) (by decide)
  | csharp => exact hpaths .csharp (readers.readCSharpLoads source) (by decide)
  | php =>
    unfold Readers.importsOf Readers.analyze Readers.analyzePhpFile
    cases readers.readPhpFile source with
    | none => exact .inr ⟨rfl, .inr rfl⟩
    | some unit => exact .inl ⟨_, rfl, rfl⟩
  | swift => exact .inr ⟨rfl, .inl (by decide)⟩
  | json => exact .inl ⟨_, rfl, rfl⟩
  | yaml => exact .inl ⟨_, rfl, rfl⟩
  | sql => exact .inl ⟨_, rfl, rfl⟩
  | prisma => exact .inl ⟨_, rfl, rfl⟩

omit [TextRuntime] in
theorem produced_iff_not_silent {slot : Slot Source}
    (hflag : (fileOf readers attempt slot).importsUnknown = false) :
    Produced readers attempt fromReader slot ↔
      ¬ SilentlyUnread readers attempt fromReader slot := by
  obtain ⟨entry, language, content⟩ := slot
  cases content with
  | unreadable => cases hflag
  | remembered file =>
    show fromReader entry ↔ ¬ (¬ fromReader entry ∧ file.importsUnknown = false)
    have hflag : file.importsUnknown = false := hflag
    simp only [hflag, and_true, not_not]
  | fresh source =>
    show readers.importsOf attempt entry.path source language =
        some (readers.analyze attempt entry.path source language).imports ↔
      ¬ (language ∈ failsSilently ∧ readers.importsOf attempt entry.path source language = none)
    rcases analyze_imports readers attempt entry.path source language with
      ⟨imports, hread, hkept⟩ | ⟨hread, hsilent | hunknown⟩
    · simp [hread, hkept]
    · simp [hread, hsilent]
    · have hflag : (readers.analyze attempt entry.path source language).importsUnknown = false :=
        hflag
      rw [hunknown] at hflag
      cases hflag

/-! ## The index and the plan -/

variable (resolvers : Resolvers Source) (input : BuildInput Source)
  (entries : List RepositoryFileEntry) (known : Option (List String))

def slotsAt (file : String) : List (Slot Source) :=
  (scan readers attempt input entries).slots.filter fun slot =>
    (fileOf readers attempt slot).path = file

/-- The index holds the file, with the imports its language's reader produced. -/
def HoldsRead (file : String) : Prop :=
  slotsAt readers attempt input entries file ≠ [] ∧
    ∀ slot ∈ slotsAt readers attempt input entries file, Produced readers attempt fromReader slot

/-- Every file the imports of an indexed file land on. -/
def importedFiles (file : IndexedFile) : List String :=
  let scanned := (scan readers attempt input entries).slots
  file.imports.zipIdx.flatMap fun written =>
    resolveImportedFiles resolvers (stdlibAfter attempt known scanned)
      (contextOf attempt input entries (scanned.map (fileOf readers attempt)))
      file.language file.path written.1 (file.kindAt written.2)

/-- What an enriched plan that does not say otherwise promises of its read set. -/
def ReadSetComplete (plan enriched : AgentPlan) : Prop :=
  enriched.dependenciesUnknown = false →
    ∀ file ∈ plan.expectedFiles, (languageOf file).isSome = true →
      HoldsRead readers attempt fromReader input entries file ∧
        ∀ slot ∈ slotsAt readers attempt input entries file,
          ∀ target ∈ importedFiles readers attempt resolvers input entries known
              (fileOf readers attempt slot),
            trim ("file:" ++ target) ∈ enriched.dependencies

/-- The plan says so anyway; or no declared file is indexed; or an indexed one is marked;
or every declared source file is indexed and none was left unread silently. -/
def ReadSetKnown (plan : AgentPlan) : Prop :=
  plan.dependenciesUnknown = true ∨
    (∀ file ∈ plan.expectedFiles, slotsAt readers attempt input entries file = []) ∨
    (∃ file ∈ plan.expectedFiles, ∃ slot ∈ slotsAt readers attempt input entries file,
      (fileOf readers attempt slot).importsUnknown = true) ∨
    ∀ file ∈ plan.expectedFiles, (languageOf file).isSome = true →
      slotsAt readers attempt input entries file ≠ [] ∧
        ∀ slot ∈ slotsAt readers attempt input entries file,
          ¬ SilentlyUnread readers attempt fromReader slot

variable {readers attempt fromReader resolvers input entries known}

theorem mem_selected_build {plan : AgentPlan} {indexed : IndexedFile} :
    indexed ∈ (build resolvers readers attempt input entries known).selected plan ↔
      ∃ file ∈ plan.expectedFiles, ∃ slot ∈ slotsAt readers attempt input entries file,
        fileOf readers attempt slot = indexed := by
  simp only [RepositoryIndex.selected, build, slotsAt, List.mem_filter, List.mem_map,
    decide_eq_true_eq]
  constructor
  · rintro ⟨⟨slot, hslot, rfl⟩, hpath⟩
    exact ⟨_, hpath, slot, ⟨hslot, rfl⟩, rfl⟩
  · rintro ⟨file, hfile, slot, ⟨hslot, rfl⟩, rfl⟩
    exact ⟨⟨slot, hslot, rfl⟩, hfile⟩

/-- When the plan is not blind: nothing of it is source, or something of it is indexed and
nothing indexed is marked. -/
theorem blind_build_eq_false {plan : AgentPlan} :
    (build resolvers readers attempt input entries known).blind plan = false ↔
      (∃ file ∈ plan.expectedFiles, (languageOf file).isSome = true) →
        (∃ file ∈ plan.expectedFiles, slotsAt readers attempt input entries file ≠ []) ∧
        ∀ file ∈ plan.expectedFiles, ∀ slot ∈ slotsAt readers attempt input entries file,
          (fileOf readers attempt slot).importsUnknown = false := by
  simp only [RepositoryIndex.blind, Bool.and_eq_false_iff, Bool.or_eq_false_iff,
    List.any_eq_false, List.isEmpty_eq_false_iff]
  constructor
  · rintro (hnone | ⟨hselected, hmarked⟩) ⟨source, hsource, hlanguage⟩
    · exact absurd hlanguage (hnone source hsource)
    · constructor
      · obtain ⟨indexed, hindexed⟩ := List.exists_mem_of_ne_nil _ hselected
        obtain ⟨file, hfile, slot, hslot, -⟩ := mem_selected_build.mp hindexed
        exact ⟨file, hfile, List.ne_nil_of_mem hslot⟩
      · intro file hfile slot hslot
        exact Bool.eq_false_iff.mpr
          (hmarked _ (mem_selected_build.mpr ⟨file, hfile, slot, hslot, rfl⟩))
  · intro h
    by_cases hsource : ∃ file ∈ plan.expectedFiles, (languageOf file).isSome = true
    · obtain ⟨⟨file, hfile, hslots⟩, hmarked⟩ := h hsource
      refine .inr ⟨?_, ?_⟩
      · obtain ⟨slot, hslot⟩ := List.exists_mem_of_ne_nil _ hslots
        exact List.ne_nil_of_mem (mem_selected_build.mpr ⟨file, hfile, slot, hslot, rfl⟩)
      · intro indexed hindexed
        obtain ⟨file, hfile, slot, hslot, rfl⟩ := mem_selected_build.mp hindexed
        simp [hmarked file hfile slot hslot]
    · refine .inl fun file hfile hlanguage => hsource ⟨file, hfile, hlanguage⟩

variable {plan enriched : AgentPlan} {index : RepositoryIndex}

theorem dependenciesUnknown_enrichPlan (h : enrichPlan plan index = .ok enriched) :
    enriched.dependenciesUnknown = (plan.dependenciesUnknown || index.blind plan) := by
  unfold enrichPlan at h
  obtain ⟨files, -, h⟩ := except_bind_ok h
  obtain rfl := Except.ok.inj h
  rfl

theorem mem_dependencies_enrichPlan (h : enrichPlan plan index = .ok enriched)
    {edge : DependencyEdge} {target : String} (hedge : edge ∈ index.edges)
    (hfrom : edge.fromFile ∈ plan.expectedFiles) (hto : edge.toFile = some target) :
    trim ("file:" ++ target) ∈ enriched.dependencies := by
  have hfile : "file:" ++ target ∈ index.dependencyFiles plan := by
    refine List.mem_filterMap.mpr ⟨edge, List.mem_filter.mpr ⟨hedge, by simpa using hfrom⟩, ?_⟩
    rw [hto, Option.map_some]
  have hne : trim ("file:" ++ target) ≠ "" :=
    @trim_ne_empty 'f' (by decide) _ (by simp)
  unfold enrichPlan at h
  obtain ⟨files, -, h⟩ := except_bind_ok h
  obtain rfl := Except.ok.inj h
  refine mem_uniqueStrings.mpr ⟨⟨_, ?_, rfl⟩, hne⟩
  simp [hfile]

theorem mem_edges_build {slot : Slot Source} {target : String}
    (hslot : slot ∈ (scan readers attempt input entries).slots)
    (htarget : target ∈ importedFiles readers attempt resolvers input entries known
      (fileOf readers attempt slot)) :
    ∃ edge ∈ (build resolvers readers attempt input entries known).edges,
      edge.fromFile = (fileOf readers attempt slot).path ∧ edge.toFile = some target := by
  obtain ⟨written, hwritten, htarget⟩ := List.mem_flatMap.mp htarget
  refine ⟨⟨(fileOf readers attempt slot).path, some target, target, .imports⟩, ?_, rfl, rfl⟩
  refine mem_unique.mpr (List.mem_flatMap.mpr ⟨_, List.mem_map.mpr ⟨slot, hslot, rfl⟩, ?_⟩)
  refine List.mem_append_left _ (List.mem_flatMap.mpr ⟨written, hwritten, ?_⟩)
  rw [importEdges, if_neg (List.ne_nil_of_mem htarget)]
  exact List.mem_map.mpr ⟨target, htarget, rfl⟩

end

/-! ## A new file beside one that was read -/

section
attribute [local instance] asciiRuntime

/-- Readers that find nothing in a file; a script's text is its one import. -/
def plainReaders : Readers String where
  byteLength := String.length
  analyzeScript path source language :=
    some { path, language, bytes := source.length, imports := [source], dependencies := [source] }
  symbolRanges _ _ := some []
  shapes _ _ := some []
  resourcesFromNames _ _ := ⟨[], []⟩
  resourcesFromText _ _ _ := none
  readPython _ := some ⟨[], [], []⟩
  readRubyRequires _ := some []
  readJvmHeader _ _ := none
  topLevelDeclared _ _ := none
  readIncludes _ := some []
  readCSharpLoads _ := some []
  readRustFile _ := some ⟨[], []⟩
  readGoFile _ := none
  readPhpFile _ := none
  dataResources _ _ _ := ⟨[], [], []⟩
  script_path := by
    rintro path source language file ⟨⟩
    rfl
  script_language := by
    rintro path source language file ⟨⟩
    rfl
  script_bytes := by
    rintro path source language file ⟨⟩
    rfl

def allWell : Attempt := ⟨fun _ => true, fun _ => true, fun _ => true, ["os", "sys"]⟩

/-- A script's `./b` is `b.ts`. -/
def plainResolvers : Resolvers String where
  python _ _ _ _ := []
  other _ context _ specifier := context.files.filter fun file =>
    file = String.ofList (specifier.toList.drop 2) ++ ".ts"

def plainInput : BuildInput String := ⟨some, fun _ _ => none, {}⟩

def aAndB : List RepositoryFileEntry :=
  [⟨"a.ts", "./b", .blob, "100644"⟩, ⟨"b.ts", "", .blob, "100644"⟩]

def planOver (files : List String) : AgentPlan where
  taskId := "t"
  objective := "change a.ts"
  expectedFiles := files
  expectedSymbols := []

end

end AgenticGit.CodeIntelligence
