import AgenticGit.Lib.Runtime

/- The index of one revision: how `build` reads a tree listing into files and edges.

   The readers of the languages are parameters: what each makes of a source is
   `Readers`, where an import lands is `Resolvers`. What this module keeps is what
   `build` does with their answers and with their refusals.

   Correspondence (TypeScript ↔ Lean):
     a reader under `safely`, or one that answers `undefined` ↔ a function to `Option`
     whether the batch reader served a blob, the walk of a script had stack enough and an
       interpreter run answered for a file, this time ↔ `Attempt`
     `slots`, with the scripts and the Python sources put off ↔ `Slot`; the file it comes
       to is `Readers.fileOf`
     `fresh`, after Python had its turn     ↔ `Readers.remembers`
     the tables resolution needs            ↔ a function of the indexed files, which
       `ResolutionContext` carries -/
namespace AgenticGit.CodeIntelligence
open AgenticGit.Runtime

/-! ## Languages -/

inductive SupportedLanguage where
  | typescript | javascript | python | ruby | go | rust | java | csharp | c | cpp | php
  | swift | kotlin | scala | json | yaml | sql | prisma
  deriving DecidableEq, Repr

def sourceExtensions : List (String × SupportedLanguage) :=
  [(".ts", .typescript), (".tsx", .typescript), (".mts", .typescript), (".cts", .typescript),
    (".js", .javascript), (".jsx", .javascript), (".mjs", .javascript), (".cjs", .javascript),
    (".py", .python), (".pyi", .python), (".rb", .ruby), (".rake", .ruby), (".rbw", .ruby),
    (".ru", .ruby), (".gemspec", .ruby), (".go", .go), (".rs", .rust), (".java", .java),
    (".cs", .csharp), (".csx", .csharp), (".c", .c), (".h", .c), (".cc", .cpp), (".cpp", .cpp),
    (".cxx", .cpp), (".c++", .cpp), (".hpp", .cpp), (".hh", .cpp), (".hxx", .cpp),
    (".h++", .cpp), (".inl", .cpp), (".ipp", .cpp), (".tpp", .cpp), (".cu", .cpp),
    (".cuh", .cpp), (".php", .php), (".phtml", .php), (".php5", .php), (".php7", .php),
    (".inc", .php), (".swift", .swift), (".kt", .kotlin), (".kts", .kotlin),
    (".scala", .scala), (".json", .json), (".yaml", .yaml), (".yml", .yaml), (".sql", .sql),
    (".prisma", .prisma)]

def sourceBasenames : List (String × SupportedLanguage) :=
  ["Rakefile", "Gemfile", "Guardfile", "Capfile", "Vagrantfile", "Berksfile", "Podfile",
    "Fastfile"].map fun name => (name, .ruby)

/-- `path.posix.basename`, of a path that does not end in a slash. -/
def basename (path : String) : String :=
  String.ofList ((path.toList.reverse.takeWhile (· ≠ '/')).reverse)

/-- `path.posix.extname`: from the last dot of the name, unless the name starts with it. -/
def extname (path : String) : String :=
  let name := (basename path).toList
  let written := name.reverse.takeWhile (· ≠ '.')
  if name.length ≤ written.length + 1 then "" else String.ofList ('.' :: written.reverse)

variable [TextRuntime]

/-- The language a path is written in, by extension and then by name. -/
def languageOf (path : String) : Option SupportedLanguage :=
  (sourceExtensions.lookup (toLowerCase (extname path))).or (sourceBasenames.lookup (basename path))

def SupportedLanguage.isScript (language : SupportedLanguage) : Bool :=
  language ∈ [.typescript, .javascript]

def jvmLanguages : List SupportedLanguage := [.java, .kotlin, .scala]

def cLanguages : List SupportedLanguage := [.c, .cpp]

/-! ## Indexed files -/

structure SymbolRange where
  name : String
  startLine : Int
  endLine : Int
  deriving DecidableEq, Repr

structure SymbolShape where
  symbol : String
  kind : String
  shape : String
  digest : String
  inferred : Bool
  deriving DecidableEq, Repr

structure SymbolCall where
  fromSymbol : String
  toSymbol : String
  deriving DecidableEq, Repr

/-- What a scanned file says about itself that resolution needs. -/
structure ScanFacts where
  packageName : Option String := none
  buildIgnored : Option Bool := none
  declared : Option (List String) := none
  importKinds : Option (List String) := none
  topLevel : Option (List String) := none
  deriving DecidableEq, Repr

structure IndexedFile where
  path : String
  language : SupportedLanguage
  bytes : Nat
  symbols : List String := []
  exportedSymbols : List String := []
  exportedShapes : List SymbolShape := []
  exportedShapesUnknown : Bool := false
  symbolRanges : List SymbolRange := []
  symbolRangesUnknown : Bool := false
  symbolCalls : List SymbolCall := []
  imports : List String := []
  importsUnknown : Bool := false
  dependencies : List String := []
  referencedSymbols : List String := []
  apis : List String := []
  schemas : List String := []
  configKeys : List String := []
  tests : List String := []
  services : List String := []
  scan : Option ScanFacts := none
  deriving DecidableEq, Repr

/-- A file whose source could not be obtained or could not be read. -/
def unreadableFile (path : String) (language : SupportedLanguage) (bytes : Nat) : IndexedFile where
  path := path
  language := language
  bytes := bytes
  symbolRangesUnknown := true
  exportedShapesUnknown := true
  importsUnknown := true

/-- An import as a reader gives it: how it was written, if that is kept, and its text. -/
abbrev WrittenImport := Option String × String

def keptImports (imports : List WrittenImport) : List WrittenImport :=
  uniqueBy (fun written => (written.1.getD "", written.2))
    ((imports.map fun written => (written.1, trim written.2)).filter fun written =>
      written.2 ≠ "")

/-- Records a scanned file's imports as written, with how each was written beside it. -/
def recordImports (file : IndexedFile) (imports : List WrittenImport) : IndexedFile :=
  let kept := keptImports imports
  let specifiers := kept.map Prod.snd
  { file with
    imports := specifiers
    dependencies := uniqueStrings specifiers
    scan :=
      if kept.any fun written => written.1.isSome then
        some { file.scan.getD {} with
          importKinds := some (kept.map fun written => written.1.getD "") }
      else file.scan }

/-! ## The readers -/

structure JvmHeader where
  packageName : String
  imports : List String

structure DeclaredNames where
  names : List String
  types : List String

structure RustFile where
  /-- `path:` before a module whose file is named. -/
  modules : List String
  uses : List String

structure GoFile where
  packageName : String
  buildIgnored : Bool
  imports : List String

structure PhpFile where
  namespaceName : String
  declared : List String
  uses : List String
  requires : List String

structure PythonAnswer where
  ranges : List SymbolRange
  imports : List String
  shapes : List SymbolShape

structure NamedResources where
  schemas : List String
  services : List String

structure TextResources where
  apis : List String
  configKeys : List String

structure DataResources where
  schemas : List String
  configKeys : List String
  services : List String

/-- What the readers of the languages make of a source. -/
structure Readers (Source : Type) where
  byteLength : Source → Nat
  analyzeScript : String → Source → SupportedLanguage → Option IndexedFile
  symbolRanges : Source → SupportedLanguage → Option (List SymbolRange)
  shapes : Source → SupportedLanguage → Option (List SymbolShape)
  resourcesFromNames : String → List String → NamedResources
  resourcesFromText : Source → SupportedLanguage → String → Option TextResources
  /-- What an interpreter that runs to its end says of a file. -/
  readPython : Source → Option PythonAnswer
  /-- Each with whether it is a `require_relative`. -/
  readRubyRequires : Source → Option (List (Bool × String))
  readJvmHeader : Source → SupportedLanguage → Option JvmHeader
  topLevelDeclared : Source → SupportedLanguage → Option DeclaredNames
  readIncludes : Source → Option (List String)
  readCSharpLoads : Source → Option (List String)
  readRustFile : Source → Option RustFile
  readGoFile : Source → Option GoFile
  readPhpFile : Source → Option PhpFile
  dataResources : String → Source → SupportedLanguage → DataResources
  script_path : ∀ path source language file,
    analyzeScript path source language = some file → file.path = path
  script_language : ∀ path source language file,
    analyzeScript path source language = some file → file.language = language
  script_bytes : ∀ path source language file,
    analyzeScript path source language = some file → file.bytes = byteLength source

/-- How one build fared with what can fail. -/
structure Attempt where
  /-- The batch reader served the blob at this path. -/
  served : String → Bool
  /-- The walk of the script at this path came to its end. -/
  walked : String → Bool
  /-- The interpreter run this Python file was in came to its end. -/
  answered : String → Bool
  /-- The standard library's names, of the runs that did. -/
  stdlib : List String

section
variable {Source : Type} (readers : Readers Source) (attempt : Attempt)

namespace Readers

/-- A file in a language that is scanned rather than parsed. -/
def analyzeScannedFile (path : String) (source : Source) (language : SupportedLanguage)
    (ranges : Option (List SymbolRange)) (shapes : Option (List SymbolShape)) : IndexedFile :=
  let symbols := (ranges.getD []).map SymbolRange.name
  let named := readers.resourcesFromNames path symbols
  let fromText := readers.resourcesFromText source language path
  { path, language, symbols
    bytes := readers.byteLength source
    symbolRanges := ranges.getD []
    symbolRangesUnknown := ranges.isNone
    exportedShapes := shapes.getD []
    exportedShapesUnknown := shapes.isNone
    exportedSymbols := (shapes.getD []).map SymbolShape.symbol
    apis := (fromText.map TextResources.apis).getD []
    schemas := named.schemas
    configKeys := (fromText.map TextResources.configKeys).getD []
    services := named.services }

/-- A language's own scanners, ruby's and those of the brace languages. -/
def scanned (path : String) (source : Source) (language : SupportedLanguage) : IndexedFile :=
  readers.analyzeScannedFile path source language (readers.symbolRanges source language)
    (readers.shapes source language)

def analyzeScriptFile (path : String) (source : Source) (language : SupportedLanguage) :
    IndexedFile :=
  (if attempt.walked path then readers.analyzeScript path source language else none).getD
    (unreadableFile path language (readers.byteLength source))

def distributionOf (name : String) : String :=
  if name.toList.head? = some '.' then name else String.ofList (name.toList.takeWhile (· ≠ '.'))

/-- What a build says of a Python file: a placeholder, filled in when a run answered. -/
def analyzePythonFile (path : String) (source : Source) : IndexedFile :=
  let placeholder := readers.analyzeScannedFile path source .python none none
  match (if attempt.answered path then readers.readPython source else none) with
  | none => placeholder
  | some answer =>
    let symbols := answer.ranges.map SymbolRange.name
    let named := readers.resourcesFromNames path symbols
    { placeholder with
      symbolRanges := answer.ranges
      symbols
      symbolRangesUnknown := false
      exportedShapes := answer.shapes
      exportedSymbols := answer.shapes.map SymbolShape.symbol
      exportedShapesUnknown := false
      schemas := named.schemas
      services := named.services
      imports := answer.imports
      dependencies := uniqueStrings (answer.imports.map distributionOf) }

def analyzeRubyFile (path : String) (source : Source) : IndexedFile :=
  let scanned := readers.scanned path source .ruby
  match readers.readRubyRequires source with
  | none => { scanned with importsUnknown := true }
  | some requires =>
    recordImports scanned (requires.map fun request =>
      (some (if request.1 then "rel" else "lib"), request.2))

def analyzeJvmFile (path : String) (source : Source) (language : SupportedLanguage) :
    IndexedFile :=
  let scanned := readers.scanned path source language
  match readers.readJvmHeader source language with
  | none => scanned
  | some header =>
    let recorded := recordImports scanned (header.imports.map fun name => (none, name))
    let declared := readers.topLevelDeclared source language
    { recorded with
      scan := some { recorded.scan.getD {} with
        packageName := some header.packageName
        declared := some ((declared.map DeclaredNames.types).getD [])
        topLevel := declared.map DeclaredNames.names } }

/-- A language of which only the paths its files name are read. -/
def analyzePathsFile (path : String) (source : Source) (language : SupportedLanguage)
    (paths : Option (List String)) : IndexedFile :=
  let scanned := readers.scanned path source language
  match paths with
  | none => scanned
  | some paths => recordImports scanned (paths.map fun name => (none, name))

/-- A `mod`, told apart from one whose file is named. -/
def writtenModule (name : String) : WrittenImport :=
  if "path:".toList <+: name.toList then (some "path", String.ofList (name.toList.drop 5))
  else (some "mod", name)

def analyzeRustFile (path : String) (source : Source) : IndexedFile :=
  let scanned := readers.scanned path source .rust
  match readers.readRustFile source with
  | none => scanned
  | some facts =>
    recordImports scanned (facts.modules.map writtenModule ++
      facts.uses.map fun name => (none, name))

def analyzeGoFile (path : String) (source : Source) : IndexedFile :=
  let scanned := readers.scanned path source .go
  match readers.readGoFile source with
  | none => { scanned with importsUnknown := true }
  | some facts =>
    let recorded := recordImports scanned (facts.imports.map fun name => (none, name))
    { recorded with
      scan := some { recorded.scan.getD {} with
        packageName := some facts.packageName
        buildIgnored := some facts.buildIgnored } }

def analyzePhpFile (path : String) (source : Source) : IndexedFile :=
  let scanned := readers.scanned path source .php
  match readers.readPhpFile source with
  | none => { scanned with importsUnknown := true }
  | some unit =>
    let recorded := recordImports scanned
      (unit.uses.map (fun name => (some "use", name)) ++
        unit.requires.map fun name => (some "req", name))
    { recorded with
      scan := some { recorded.scan.getD {} with
        packageName := some unit.namespaceName
        declared := some unit.declared } }

def analyzeDataFile (path : String) (source : Source) (language : SupportedLanguage) :
    IndexedFile :=
  let resources := readers.dataResources path source language
  { path, language
    bytes := readers.byteLength source
    exportedShapesUnknown := true
    schemas := resources.schemas
    configKeys := resources.configKeys
    services := resources.services }

def analyze (path : String) (source : Source) (language : SupportedLanguage) : IndexedFile :=
  match language with
  | .typescript | .javascript => readers.analyzeScriptFile attempt path source language
  | .python => readers.analyzePythonFile attempt path source
  | .ruby => readers.analyzeRubyFile path source
  | .java | .kotlin | .scala => readers.analyzeJvmFile path source language
  | .c | .cpp => readers.analyzePathsFile path source language (readers.readIncludes source)
  | .csharp => readers.analyzePathsFile path source language (readers.readCSharpLoads source)
  | .rust => readers.analyzeRustFile path source
  | .go => readers.analyzeGoFile path source
  | .php => readers.analyzePhpFile path source
  | .swift => readers.scanned path source language
  | .json | .yaml | .sql | .prisma => readers.analyzeDataFile path source language

end Readers

/-! ## What every file says -/

/-- A file is written for its path, its language and its source. -/
structure IndexedFile.WrittenFor (readers : Readers Source) (path : String) (source : Source)
    (language : SupportedLanguage) (file : IndexedFile) : Prop where
  path : file.path = path
  language : file.language = language
  bytes : file.bytes = readers.byteLength source

omit [TextRuntime] in
theorem analyze_written (path : String) (source : Source) (language : SupportedLanguage) :
    (readers.analyze attempt path source language).WrittenFor readers path source language := by
  have hscript : ∀ script,
      (readers.analyzeScriptFile attempt path source script).WrittenFor readers path source script := by
    intro script
    unfold Readers.analyzeScriptFile
    split
    · cases hfile : readers.analyzeScript path source script with
      | none => exact ⟨rfl, rfl, rfl⟩
      | some file => exact ⟨readers.script_path _ _ _ _ hfile,
          readers.script_language _ _ _ _ hfile, readers.script_bytes _ _ _ _ hfile⟩
    · exact ⟨rfl, rfl, rfl⟩
  have hjvm : ∀ jvm,
      (readers.analyzeJvmFile path source jvm).WrittenFor readers path source jvm := by
    intro jvm
    unfold Readers.analyzeJvmFile
    cases readers.readJvmHeader source jvm with
    | none => exact ⟨rfl, rfl, rfl⟩
    | some header => exact ⟨rfl, rfl, rfl⟩
  have hpaths : ∀ scanned paths,
      (readers.analyzePathsFile path source scanned paths).WrittenFor readers path source scanned := by
    intro scanned paths
    cases paths with
    | none => exact ⟨rfl, rfl, rfl⟩
    | some paths => exact ⟨rfl, rfl, rfl⟩
  cases language with
  | typescript => exact hscript .typescript
  | javascript => exact hscript .javascript
  | python =>
    show (readers.analyzePythonFile attempt path source).WrittenFor readers path source .python
    unfold Readers.analyzePythonFile
    cases if attempt.answered path then readers.readPython source else none with
    | none => exact ⟨rfl, rfl, rfl⟩
    | some answer => exact ⟨rfl, rfl, rfl⟩
  | ruby =>
    show (readers.analyzeRubyFile path source).WrittenFor readers path source .ruby
    unfold Readers.analyzeRubyFile
    cases readers.readRubyRequires source with
    | none => exact ⟨rfl, rfl, rfl⟩
    | some requires => exact ⟨rfl, rfl, rfl⟩
  | go =>
    show (readers.analyzeGoFile path source).WrittenFor readers path source .go
    unfold Readers.analyzeGoFile
    cases readers.readGoFile source with
    | none => exact ⟨rfl, rfl, rfl⟩
    | some facts => exact ⟨rfl, rfl, rfl⟩
  | rust =>
    show (readers.analyzeRustFile path source).WrittenFor readers path source .rust
    unfold Readers.analyzeRustFile
    cases readers.readRustFile source with
    | none => exact ⟨rfl, rfl, rfl⟩
    | some facts => exact ⟨rfl, rfl, rfl⟩
  | php =>
    show (readers.analyzePhpFile path source).WrittenFor readers path source .php
    unfold Readers.analyzePhpFile
    cases readers.readPhpFile source with
    | none => exact ⟨rfl, rfl, rfl⟩
    | some unit => exact ⟨rfl, rfl, rfl⟩
  | java => exact hjvm .java
  | kotlin => exact hjvm .kotlin
  | scala => exact hjvm .scala
  | c => exact hpaths .c _
  | cpp => exact hpaths .cpp _
  | csharp => exact hpaths .csharp _
  | _ => exact ⟨rfl, rfl, rfl⟩

end

end AgenticGit.CodeIntelligence
