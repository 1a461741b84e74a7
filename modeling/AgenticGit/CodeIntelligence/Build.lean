import AgenticGit.CodeIntelligence.Index

/- One build of an index: the scan of the tree listing under its budgets, what is
   remembered of it, and the edges (`CodeIntelligenceService.build`).

   Correspondence (TypeScript ↔ Lean):
     `parsed.get(parsedKey(entry))`   ↔ `parsed oid path`, as it is when the build starts
     `decodeSource(blob)`             ↔ `decode oid`: a blob's text, if it has one
     `readAhead`, the chunks of a scan ↔ the countdown of `scanFrom`
     `resolveImportedFiles`           ↔ the same, over `Resolvers` -/
namespace AgenticGit.CodeIntelligence
open AgenticGit.Runtime

/-! ## The listing -/

inductive EntryType where
  | blob | commit
  deriving DecidableEq, Repr

structure RepositoryFileEntry where
  path : String
  oid : String
  type : EntryType := .blob
  mode : String := "100644"
  deriving DecidableEq, Repr

def symlinkMode : String := "120000"

/-- Manifests read for what they say about the repository. -/
def manifestNames : List String := ["go.mod", "Cargo.toml"]

structure Limits where
  maxFiles : Nat := 5000
  maxFileBytes : Nat := 2 * 1024 * 1024
  maxTotalBytes : Nat := 50 * 1024 * 1024
  deriving DecidableEq, Repr

section
variable (entries : List RepositoryFileEntry)

def duplicated (path : String) : Bool := 1 < (entries.map RepositoryFileEntry.path).count path

def symlink (path : String) : Bool :=
  entries.any fun entry => entry.mode = symlinkMode && entry.path = path

def allPaths : List String :=
  (entries.filter fun entry =>
    entry.type = .blob && !duplicated entries entry.path && !symlink entries entry.path).map
    RepositoryFileEntry.path

variable [TextRuntime]

def candidates : List RepositoryFileEntry :=
  entries.filter fun entry => entry.type = .blob && (languageOf entry.path).isSome

def manifestEntries : List RepositoryFileEntry :=
  entries.filter fun entry =>
    entry.type = .blob && (languageOf entry.path).isNone &&
      basename entry.path ∈ manifestNames && !symlink entries entry.path

end

/-! ## The scan -/

inductive SlotContent (Source : Type) where
  | unreadable
  | remembered (file : IndexedFile)
  | fresh (source : Source)

/-- A file's place in the index, with what it will be filled from. -/
structure Slot (Source : Type) where
  entry : RepositoryFileEntry
  language : SupportedLanguage
  content : SlotContent Source

def Slot.isFresh {Source : Type} (slot : Slot Source) : Bool :=
  match slot.content with
  | .fresh _ => true
  | .unreadable | .remembered _ => false

structure ScanState (Source : Type) where
  slots : List (Slot Source) := []
  totalBytes : Nat := 0
  skippedFiles : Nat := 0

/-- What a build starts from: the blobs, the parses remembered and the bounds. -/
structure BuildInput (Source : Type) where
  decode : String → Option Source
  parsed : String → String → Option IndexedFile
  limits : Limits

section
variable {Source : Type} [TextRuntime] (readers : Readers Source) (attempt : Attempt)
  (input : BuildInput Source) (entries : List RepositoryFileEntry)

def exhausted (limits : Limits) (st : ScanState Source) : Bool :=
  limits.maxFiles ≤ st.slots.length || limits.maxTotalBytes ≤ st.totalBytes

def ScanState.skip (st : ScanState Source) : ScanState Source :=
  { st with skippedFiles := st.skippedFiles + 1 }

def ScanState.push (st : ScanState Source) (slot : Slot Source) (bytes : Nat) : ScanState Source :=
  { st with slots := st.slots ++ [slot], totalBytes := st.totalBytes + bytes }

/-- A file that was read, now or before, if the budgets have room for it. -/
def ScanState.charge (limits : Limits) (st : ScanState Source) (slot : Slot Source)
    (bytes : Nat) : ScanState Source :=
  if exhausted limits st then st.skip
  else if limits.maxFileBytes < bytes || limits.maxTotalBytes < st.totalBytes + bytes then st.skip
  else st.push slot bytes

def sourceOf (entry : RepositoryFileEntry) : Option Source :=
  if attempt.served entry.path then input.decode entry.oid else none

def scanEntry (st : ScanState Source) (entry : RepositoryFileEntry) : ScanState Source :=
  match languageOf entry.path with
  | none => st
  | some language =>
    if duplicated entries entry.path then st.skip
    else if symlink entries entry.path then st.skip.push ⟨entry, language, .unreadable⟩ 0
    else
      match input.parsed entry.oid entry.path with
      | some file => st.charge input.limits ⟨entry, language, .remembered file⟩ file.bytes
      | none =>
        match sourceOf attempt input entry with
        | none => st.skip.push ⟨entry, language, .unreadable⟩ 0
        | some source =>
          st.charge input.limits ⟨entry, language, .fresh source⟩ (readers.byteLength source)

def readAhead : Nat := 256

/-- The scan, `left` entries before the next chunk begins; a chunk that finds the budget
spent ends it. -/
def scanFrom (left : Nat) (st : ScanState Source) : List RepositoryFileEntry → ScanState Source
  | [] => st
  | entry :: rest =>
    match left with
    | 0 =>
      if exhausted input.limits st then
        { st with skippedFiles := st.skippedFiles + (rest.length + 1) }
      else scanFrom (readAhead - 1) (scanEntry readers attempt input entries st entry) rest
    | left + 1 => scanFrom left (scanEntry readers attempt input entries st entry) rest

theorem scanFrom_cons (left : Nat) (st : ScanState Source) (entry : RepositoryFileEntry)
    (rest : List RepositoryFileEntry) :
    scanFrom readers attempt input entries left st (entry :: rest) =
      if left = 0 ∧ exhausted input.limits st = true then
        { st with skippedFiles := st.skippedFiles + (rest.length + 1) }
      else
        scanFrom readers attempt input entries (if left = 0 then readAhead - 1 else left - 1)
          (scanEntry readers attempt input entries st entry) rest := by
  cases left with
  | zero => simp [scanFrom]
  | succ left => simp [scanFrom]

def scan : ScanState Source :=
  scanFrom readers attempt input entries 0 {} (candidates entries)

/-! ## Files -/

def fileOf (slot : Slot Source) : IndexedFile :=
  match slot.content with
  | .unreadable => unreadableFile slot.entry.path slot.language 0
  | .remembered file => file
  | .fresh source => readers.analyze attempt slot.entry.path source slot.language

/-- Whether a slot's file is remembered: not a script the analyzer refused, nor a Python
file no run answered for. -/
def remembers (slot : Slot Source) : Bool :=
  match slot.content with
  | .unreadable => false
  | .remembered _ => false
  | .fresh source =>
    if slot.language.isScript then !(fileOf readers attempt slot).symbolRangesUnknown
    else if slot.language = .python then
      attempt.answered slot.entry.path && (readers.readPython source).isSome
    else true

def remember (parsed : String → String → Option IndexedFile) (slots : List (Slot Source)) :
    String → String → Option IndexedFile := fun oid path =>
  match slots.find? fun slot =>
      remembers readers attempt slot && slot.entry.oid = oid && slot.entry.path = path with
  | some slot => some (fileOf readers attempt slot)
  | none => parsed oid path

/-- The standard library as this build's interpreter runs told it. -/
def stdlibOf (slots : List (Slot Source)) : List String :=
  if slots.any fun slot => slot.language = .python && slot.isFresh then attempt.stdlib else []

end

/-! ## Edges -/

inductive EdgeKind where
  | imports | symbol | service
  deriving DecidableEq, Repr

structure DependencyEdge where
  fromFile : String
  toFile : Option String
  resource : String
  kind : EdgeKind
  deriving DecidableEq, Repr

/-- What resolution knows of the repository besides the specifier: the tables of the
languages are made of the indexed files, and trusted as far as these cover `candidates`. -/
structure ResolutionContext (Source : Type) where
  files : List String
  manifests : List (String × Source)
  indexed : List IndexedFile
  candidates : List String

structure Resolvers (Source : Type) where
  python : Option (List String) → ResolutionContext Source → String → String → List String
  other : SupportedLanguage → ResolutionContext Source → String → String → List String

section
variable {Source : Type} (resolvers : Resolvers Source)

def resolveImportedFiles (pythonStdlib : Option (List String))
    (context : ResolutionContext Source) (language : SupportedLanguage)
    (fromFile specifier : String) (kind : Option String) : List String :=
  let marked := match kind with
    | none => specifier
    | some kind => kind ++ ":" ++ specifier
  (if language = .python then resolvers.python pythonStdlib context fromFile marked
    else resolvers.other language context fromFile marked).filter (· ≠ fromFile)

def IndexedFile.kindAt (file : IndexedFile) (position : Nat) : Option String :=
  ((file.scan.bind ScanFacts.importKinds).bind fun kinds => kinds[position]?).filter (· ≠ "")

/-- The edges of one import: a specifier that lands nowhere is recorded as it is. -/
def importEdges (file : IndexedFile) (specifier : String) (targets : List String) :
    List DependencyEdge :=
  if targets = [] then [⟨file.path, none, specifier, .imports⟩]
  else targets.map fun target => ⟨file.path, some target, target, .imports⟩

def fileEdges (pythonStdlib : Option (List String)) (context : ResolutionContext Source)
    (file : IndexedFile) : List DependencyEdge :=
  (file.imports.zipIdx.flatMap fun written =>
    importEdges file written.1
      (resolveImportedFiles resolvers pythonStdlib context file.language file.path written.1
        (file.kindAt written.2))) ++
    file.services.map fun service => ⟨file.path, none, service, .service⟩

structure RepositoryIndex where
  files : List IndexedFile
  edges : List DependencyEdge
  /-- Every path of the revision, indexed or not. -/
  paths : List String
  skippedFiles : Nat
  deriving DecidableEq, Repr

variable [TextRuntime] (readers : Readers Source) (attempt : Attempt)
  (input : BuildInput Source) (entries : List RepositoryFileEntry)

def manifestsOf : List (String × Source) :=
  (manifestEntries entries).filterMap fun entry =>
    (sourceOf attempt input entry).map fun source => (entry.path, source)

def contextOf (files : List IndexedFile) : ResolutionContext Source where
  files := allPaths entries
  manifests := manifestsOf attempt input entries
  indexed := files
  candidates := (candidates entries).map RepositoryFileEntry.path

/-- The standard library a build resolves with: what its runs said, or else what an
earlier build learned. -/
def stdlibAfter (known : Option (List String)) (slots : List (Slot Source)) :
    Option (List String) :=
  if stdlibOf attempt slots = [] then known else some (stdlibOf attempt slots)

/-- The index of a revision; `known` is the standard library as the service remembers
it. -/
def build (known : Option (List String)) : RepositoryIndex :=
  let scanned := scan readers attempt input entries
  let files := scanned.slots.map (fileOf readers attempt)
  { files
    edges := unique (files.flatMap (fileEdges resolvers
      (stdlibAfter attempt known scanned.slots) (contextOf attempt input entries files)))
    paths := sortStrings (entries.map RepositoryFileEntry.path)
    skippedFiles := scanned.skippedFiles }

end

end AgenticGit.CodeIntelligence
