import Mathlib.Data.Rat.Floor
import AgenticGit.Lib.DisjointSets
import AgenticGit.Lib.OrderedMap
import AgenticGit.CodeIntelligence.Build
import AgenticGit.Coordinator.Occupancy

/- Splitting a large task: `task-decomposition.ts`, with the grouping of an
   estimate's files into modules in `scope-estimation.ts`.

   Correspondence (TypeScript ↔ Lean):
     MANIFEST_FILE / ATOMIC_SIGNALS ↔ `manifestFile` / `atomicSignals`: the
       alternatives written out, read in the text with its case folded
     DisjointSet                    ↔ `DisjointSets`
     the loops with sets.union      ↔ `unions` of the pairs they join, in order
     decision(..) returned early    ↔ the first `Veto` that applies
     a number in a text             ↔ `numberText`, `toFixed`

   What is proved: the pieces are the classes of the modules under the edges
   and references between the estimated files (`mem_couplePieces`,
   `couplePieces_separate`); an estimate whose modules share its files out
   among them is split into a partition along every such dependency
   (`decomposeTask_partition`), and the grouping of an estimate makes such
   modules (`groupModules_shared`). An estimate that lists a file under two
   modules puts it in two subtasks (`decomposeTask_shares_file`). -/
namespace AgenticGit.Coordinator.Decomposition
open AgenticGit.Runtime AgenticGit.Shared AgenticGit.CodeIntelligence

/-! ## The estimate -/

inductive ScopeEstimateConfidence where
  | none | weak | anchored
  deriving DecidableEq, Repr

structure EstimatedFile where
  path : String
  score : Int
  anchored : Bool
  deriving DecidableEq, Repr

structure ModuleFootprint where
  root : String
  files : List String
  score : Int
  anchored : Bool
  deriving DecidableEq, Repr

structure ScopeEstimate where
  confidence : ScopeEstimateConfidence
  repositoryFraction : ℚ
  files : List EstimatedFile
  modules : List ModuleFootprint

def ScopeEstimate.paths (estimate : ScopeEstimate) : List String :=
  estimate.files.map EstimatedFile.path

/-- The longest module root containing this file, or "" when none does. -/
def moduleRootFor (filePath : String) (roots : List String) : String :=
  (roots.find? fun root =>
    filePath = root ∨ (root ++ "/").toList.isPrefixOf filePath.toList = true).getD ""

def addToModule (roots : List String) (grouped : OrderedMap String ModuleFootprint)
    (file : EstimatedFile) : OrderedMap String ModuleFootprint :=
  let root := moduleRootFor file.path roots
  let footprint := (grouped.get? root).getD ⟨root, [], 0, false⟩
  grouped.set root
    { footprint with
      files := footprint.files ++ [file.path]
      score := footprint.score + file.score
      anchored := footprint.anchored || file.anchored }

/-- The greater score first, and equal scores by their roots. -/
def RanksBefore [TextRuntime] (left right : ModuleFootprint) : Prop :=
  right.score < left.score ∨
    (right.score = left.score ∧ localeCompare left.root right.root ≠ .gt)

instance [TextRuntime] : DecidableRel RanksBefore := fun _ _ => inferInstanceAs (Decidable (_ ∨ _))

def groupModules [TextRuntime] (roots : List String) (files : List EstimatedFile) :
    List ModuleFootprint :=
  ((files.foldl (addToModule roots) OrderedMap.empty).values.insertionSort RanksBefore).map
    fun footprint => { footprint with files := sortStrings footprint.files }

/-! ## What the words say -/

/-- The case folding of the flags `iu`, as far as ASCII patterns can tell. -/
def foldCase (c : Char) : Char :=
  if c = '\u017f' then 's' else if c = '\u212a' then 'k' else c.toLower

def foldText (text : String) : List Char := text.toList.map foldCase

def manifestNames : List String :=
  ["package.json", "package-lock.json", "npm-shrinkwrap.json", "yarn.lock", "pnpm-lock.yaml",
    "jsconfig.json", "go.mod", "go.sum", "cargo.toml", "cargo.lock", "gemfile", "gemfile.lock",
    "pyproject.toml", "poetry.lock", "requirements.txt", "composer.json", "composer.lock"]

/-- A name that starts and ends as said, the two apart. -/
def spans (start : String) (ends : List String) (name : List Char) : Bool :=
  start.toList.isPrefixOf name &&
    ends.any fun ending => ending.toList.isSuffixOf (name.drop start.length)

/-- `MANIFEST_FILE`, which reads the name after the last slash. -/
def manifestFile (path : String) : Bool :=
  let name := ((foldText path).reverse.takeWhile (· ≠ '/')).reverse
  manifestNames.any (fun manifest => manifest.toList = name) || spans "tsconfig" [".json"] name ||
    spans "." ["rc", "rc.json", "rc.yml", "rc.yaml"] name ||
    spans "" [".md", ".mdx", ".txt", ".lock"] name

/-- Whether a piece is nothing but manifests and prose. -/
def manifestOnly (files : List String) : Bool := files ≠ [] && files.all manifestFile

def endings (stem : String) (ends : List String) : List String := ends.map (stem ++ ·)

/-- Wordings that mean that a change has to land in one piece. -/
def atomicWordings : List (List String × String) :=
  [(endings "renam" ["e", "es", "ed", "ing"], "rename"),
    (endings "refactor" ["", "s", "ed", "ing"], "refactor"),
    (endings "extract" ["", "s", "ed", "ing"], "extract"),
    (endings "inlin" ["e", "es", "ed", "ing"], "inline"),
    (endings "mov" ["e", "es", "ed", "ing"], "move"),
    (endings "migrat" ["e", "es", "ed", "ing", "ion"], "migrate"),
    (endings "upgrad" ["e", "es", "ed", "ing"], "upgrade"),
    (["bump"], "bump"),
    (endings "signature" ["", "s"], "signature"),
    (endings "call" ["site", "sites", " site", " sites"], "call site"),
    (["across"], "across"),
    (["everywhere"], "everywhere"),
    (endings "repo" ["-wide", " wide", "sitory-wide", "sitory wide"], "repository-wide"),
    (endings "atomic" ["", "ally"], "atomic"),
    (["a commit", "one commit", "single commit"], "single commit"),
    (["in lockstep"], "lockstep"),
    (["together"], "together"),
    (["end to end", "end to-end", "end-to end", "end-to-end"], "end-to-end"),
    (endings "consistent" ["", "ly"], "consistent"),
    (endings "unif" ["y", "ies", "ied", "ying"], "unify"),
    (endings "consolidat" ["e", "es", "ed", "ing", "ion"], "consolidate"),
    (endings "centraliz" ["e", "es", "ed", "ing", "ation"], "centralize"),
    (endings "deprecat" ["e", "es", "ed", "ing", "ion"], "deprecate"),
    (endings "rewrit" ["e", "es", "ing"], "rewrite"),
    (["same time"], "same time"),
    (["all ", "all the "].flatMap fun all =>
      endings all ["callers", "consumers", "usages", "references", "imports"], "all callers")]

def isWordChar (c : Char) : Bool := c.isAlphanum || c = '_'

/-- Whether a word stands in a text, between word boundaries; `before` is the character
in front of the text. -/
def standsIn (word : List Char) : Option Char → List Char → Bool
  | _, [] => false
  | before, c :: rest =>
    (word.isPrefixOf (c :: rest) && !before.any isWordChar &&
        !((c :: rest).drop word.length).head?.any isWordChar) ||
      standsIn word (some c) rest

def atomicSignals (objective : String) : List String :=
  (atomicWordings.filter fun wording =>
    wording.1.any fun word => standsIn word.toList none (foldText objective)).map Prod.snd

/-! ## Pieces -/

structure CandidatePiece where
  modules : List String
  files : List String
  deriving DecidableEq, Repr

/-- The module of a file: the last that lists it. -/
def moduleOf (estimate : ScopeEstimate) : OrderedMap String String :=
  OrderedMap.ofList (estimate.modules.flatMap fun footprint =>
    footprint.files.map fun file => (file, footprint.root))

/-- The modules a file of one and a file of another join, when they are two. -/
def joined (estimate : ScopeEstimate) (fromFile toFile : String) : Option (String × String) :=
  match (moduleOf estimate).get? fromFile, (moduleOf estimate).get? toFile with
  | some fromModule, some toModule =>
    if fromModule ≠ toModule then some (fromModule, toModule) else none
  | _, _ => none

def edgePairs (estimate : ScopeEstimate) (edges : List DependencyEdge) : List (String × String) :=
  edges.filterMap fun edge =>
    match edge.toFile with
    | none => none
    | some toFile =>
      if edge.fromFile ∈ estimate.paths ∧ toFile ∈ estimate.paths then
        joined estimate edge.fromFile toFile
      else none

def declaredBy (selected : List IndexedFile) (symbol : String) : List String :=
  unique ((selected.filter fun file => symbol ∈ file.symbols).map IndexedFile.path)

def referencePairs (estimate : ScopeEstimate) (files : List IndexedFile) :
    List (String × String) :=
  let selected := files.filter fun file => file.path ∈ estimate.paths
  selected.flatMap fun file =>
    file.referencedSymbols.flatMap fun referenced =>
      (declaredBy selected referenced).filterMap (joined estimate file.path)

def couplings (estimate : ScopeEstimate) (index : RepositoryIndex) : List (String × String) :=
  edgePairs estimate index.edges ++ referencePairs estimate index.files

def mergeFootprint (state : DisjointSets String × OrderedMap String CandidatePiece)
    (footprint : ModuleFootprint) : DisjointSets String × OrderedMap String CandidatePiece :=
  let found := state.1.find footprint.root
  let piece := (state.2.get? found.1).getD ⟨[], []⟩
  (found.2, state.2.set found.1
    ⟨piece.modules ++ [footprint.root], piece.files ++ footprint.files⟩)

def CandidatePiece.tidy (piece : CandidatePiece) : CandidatePiece :=
  ⟨sortStrings (unique piece.modules), sortStrings (unique piece.files)⟩

section
variable [TextRuntime]

/-- Merges the footprints that the estimated files themselves couple. -/
def couplePieces (estimate : ScopeEstimate) (index : RepositoryIndex) : List CandidatePiece :=
  let merged := (estimate.modules.foldl mergeFootprint
    (DisjointSets.unions (couplings estimate index), OrderedMap.empty)).2
  sortByLocale (fun piece => piece.modules.head?.getD "")
    (merged.values.map CandidatePiece.tidy)

end

/-! ## The decision -/

inductive DecompositionMode where
  | off | contended | always
  deriving DecidableEq, Repr

inductive DecompositionReason where
  | disabled | unknownScope | weakScope | diffuseEstimate | manifestOnlyPiece | tooSmall
  | singleModule | atomicObjective | coupledModules | tooFragmented | noContention | noRelief
  | split
  deriving DecidableEq, Repr

structure DecompositionOptions where
  mode : DecompositionMode := .contended
  minFiles : ℚ := 4
  minSubtasks : ℚ := 2
  maxSubtasks : ℚ := 4
  minFilesPerSubtask : ℚ := 1
  maxRepositoryFraction : ℚ := 35 / 100

/-- Work already in flight that a new task would contend with. -/
structure ContendingWork where
  taskId : String
  modules : List String
  files : Option (List String)
  deriving DecidableEq, Repr

structure SubtaskProposal where
  position : Nat
  total : Nat
  modules : List String
  files : List String
  objective : String
  contended : Bool
  deriving DecidableEq, Repr

structure DecompositionInput where
  objective : String
  estimate : ScopeEstimate
  index : RepositoryIndex
  contention : List ContendingWork := []
  options : DecompositionOptions := {}

structure DecompositionDecision where
  split : Bool
  reason : DecompositionReason
  explanation : String
  subtasks : List SubtaskProposal
  contendingTaskIds : List String
  deriving DecidableEq, Repr

def describeModules (modules : List String) : String :=
  let named := modules.map fun entry => if entry = "" then "the repository root" else entry
  if named.length ≤ 2 then " and ".intercalate named
  else ", ".intercalate named.dropLast ++ ", and " ++ named.getLast?.getD ""

def subtaskObjective (original : String) (piece : CandidatePiece) (position total : Nat)
    (otherModules : List String) : String :=
  "\n".intercalate <|
    [trim original, "",
      "Scope constraint (part " ++ toString position ++ " of " ++ toString total ++
        "): confine this task to " ++ describeModules piece.modules ++ ".",
      "Files expected in scope: " ++ ", ".intercalate piece.files ++ "."] ++
    (if otherModules = [] then []
      else ["Sibling tasks cover " ++ describeModules otherModules ++
        "; do not change anything there, and do not wait for them."]) ++
    ["This split was made at intake from an estimate, not from a plan. If the " ++
      "work genuinely cannot be completed within this scope, request a scope " ++
      "change rather than editing outside it."]

def decision (reason : DecompositionReason) (explanation : String)
    (contendingTaskIds : List String) (subtasks : List SubtaskProposal) :
    DecompositionDecision :=
  ⟨reason = .split, reason, explanation, subtasks, contendingTaskIds⟩

structure Veto where
  applies : Bool
  reason : DecompositionReason
  explanation : String

/-- `x.toFixed(0)` -/
def toFixed (x : ℚ) : String :=
  if x < 0 then "-" ++ toString ⌊-x + 1 / 2⌋ else toString ⌊x + 1 / 2⌋

section
variable [Printer] (input : DecompositionInput)

/-- What is read of the estimate and the objective alone. -/
def estimateVetoes : List Veto :=
  let estimate := input.estimate
  let options := input.options
  [⟨options.mode = .off, .disabled, "Intake decomposition is disabled."⟩,
    ⟨estimate.confidence = .none, .unknownScope,
      "Nothing in the objective matches the repository, so its footprint is " ++
        "unknown. Splitting an unknown footprint would be guessing."⟩,
    ⟨estimate.confidence = .weak, .weakScope,
      "The objective matched only file names — no directory, symbol, or " ++
        "declared resource — which is too thin to divide work on."⟩,
    ⟨options.maxRepositoryFraction < estimate.repositoryFraction, .diffuseEstimate,
      "The estimate names " ++ toFixed (estimate.repositoryFraction * 100) ++
        "% of the indexed repository, above the " ++
        toFixed (options.maxRepositoryFraction * 100) ++
        "% at which a footprint stops being a footprint. The " ++
        "objective's words select this repository rather than a part of it."⟩,
    ⟨(estimate.files.length : ℚ) < options.minFiles, .tooSmall,
      "The estimated footprint is " ++ toString estimate.files.length ++
        " file(s), below the " ++ numberText options.minFiles ++
        " needed to be worth dividing."⟩,
    ⟨(estimate.modules.length : ℚ) < options.minSubtasks, .singleModule,
      "The estimated footprint sits in one module (" ++
        describeModules (estimate.modules.map ModuleFootprint.root) ++
        "); there is nothing independent to separate."⟩,
    ⟨atomicSignals input.objective ≠ [], .atomicObjective,
      "The objective reads as one indivisible change (" ++
        ", ".intercalate ((atomicSignals input.objective).map fun signal =>
          "\"" ++ signal ++ "\"") ++
        "); its parts most likely have to land together."⟩]

def pieceVetoes (pieces : List CandidatePiece) : List Veto :=
  let options := input.options
  let thin := pieces.filter fun piece => (piece.files.length : ℚ) < options.minFilesPerSubtask
  let manifestPieces := pieces.filter fun piece => manifestOnly piece.files
  [⟨thin ≠ [], .tooFragmented,
      "A piece of this split (" ++ describeModules (thin.flatMap CandidatePiece.modules) ++
        ") would carry fewer than " ++ numberText options.minFilesPerSubtask ++
        " files, and dropping it would lose part of the objective."⟩,
    ⟨manifestPieces ≠ [], .manifestOnlyPiece,
      "One piece of this split (" ++
        describeModules (manifestPieces.flatMap CandidatePiece.modules) ++
        ") would contain nothing but manifests and prose (" ++
        ", ".intercalate (manifestPieces.flatMap CandidatePiece.files) ++
        "), which is bookkeeping for work that lives elsewhere rather than a " ++
        "task of its own."⟩,
    ⟨(pieces.length : ℚ) < options.minSubtasks, .coupledModules,
      "The modules in the estimated footprint depend on each other, so " ++
        "dividing them would split a change that has to compile as one."⟩,
    ⟨options.maxSubtasks < (pieces.length : ℚ), .tooFragmented,
      "The estimate spreads across " ++ toString pieces.length ++
        " independent pieces, more than the " ++ numberText options.maxSubtasks ++
        " a trustworthy split should produce; the footprint looks diffuse rather than " ++
        "localized."⟩]

end

def overlaps (contention : List ContendingWork) (piece : CandidatePiece) : Bool :=
  piece.modules.any (fun root => root ∈ contention.flatMap ContendingWork.modules) ||
    piece.files.any fun file => file ∈ contention.flatMap fun entry => entry.files.getD []

/-- What is read of the contention, in the mode that asks for relief. -/
def contentionVetoes (input : DecompositionInput) (pieces : List CandidatePiece) : List Veto :=
  let wantsRelief := decide (input.options.mode = .contended)
  [⟨wantsRelief && decide (pieces.filter (overlaps input.contention) = []), .noContention,
      "No other task is contending for this footprint, so a split would " ++
        "cost coherence and buy nothing."⟩,
    ⟨wantsRelief && decide ((pieces.filter fun piece => !overlaps input.contention piece) = []),
      .noRelief,
      "Every part of this footprint is already contended, so no split of " ++
        "it can run free of the work in flight."⟩]

def contendingTaskIds (contention : List ContendingWork) : List String :=
  sortStrings (unique (contention.map ContendingWork.taskId))

def subtaskOf (input : DecompositionInput) (pieces : List CandidatePiece)
    (placed : CandidatePiece × Nat) : SubtaskProposal where
  position := placed.2 + 1
  total := pieces.length
  modules := placed.1.modules
  files := placed.1.files
  objective := subtaskObjective input.objective placed.1 (placed.2 + 1) pieces.length
    ((pieces.eraseIdx placed.2).flatMap CandidatePiece.modules)
  contended := overlaps input.contention placed.1

def subtasksOf (input : DecompositionInput) (pieces : List CandidatePiece) :
    List SubtaskProposal := pieces.zipIdx.map (subtaskOf input pieces)

def splitExplanation (input : DecompositionInput) (pieces : List CandidatePiece) : String :=
  if input.options.mode = .contended then
    "Split into " ++ toString pieces.length ++ " independent tasks: " ++
      toString (pieces.filter fun piece => !overlaps input.contention piece).length ++
      " of them avoid the footprint that " ++
      toString (contendingTaskIds input.contention).length ++
      " task(s) already hold, which the undivided task would have collided with."
  else
    "Split into " ++ toString pieces.length ++ " independent tasks along module boundaries (" ++
      describeModules (pieces.flatMap CandidatePiece.modules) ++
      "), none of which depend on another's estimated files."

/-- Decides whether one objective should enter the queue as several tasks. -/
def decomposeTask [TextRuntime] [Printer] (input : DecompositionInput) : DecompositionDecision :=
  let pieces := couplePieces input.estimate input.index
  match (estimateVetoes input ++ pieceVetoes input pieces).find? Veto.applies with
  | some veto => decision veto.reason veto.explanation [] []
  | none =>
    let taskIds := contendingTaskIds input.contention
    match (contentionVetoes input pieces).find? Veto.applies with
    | some veto => decision veto.reason veto.explanation taskIds []
    | none => decision .split (splitExplanation input pieces) taskIds (subtasksOf input pieces)

/-! ## The pieces are the classes -/

variable {estimate : ScopeEstimate} {pair : String × String}

theorem mem_moduleOf {file root : String} (h : (moduleOf estimate).get? file = some root) :
    ∃ footprint ∈ estimate.modules, footprint.root = root ∧ file ∈ footprint.files := by
  have hentry := OrderedMap.mem_of_get?_ofList h
  simp only [List.mem_flatMap, List.mem_map, Prod.mk.injEq] at hentry
  obtain ⟨footprint, hfootprint, name, hname, rfl, rfl⟩ := hentry
  exact ⟨footprint, hfootprint, rfl, hname⟩

theorem joined_eq_some {fromFile toFile : String} : joined estimate fromFile toFile = some pair ↔
      (moduleOf estimate).get? fromFile = some pair.1 ∧
        (moduleOf estimate).get? toFile = some pair.2 ∧ pair.1 ≠ pair.2 := by
  rw [joined]
  cases hfrom : (moduleOf estimate).get? fromFile with
  | none => simp
  | some fromModule =>
    cases hto : (moduleOf estimate).get? toFile with
    | none => simp
    | some toModule =>
      dsimp only
      rw [Option.some_inj, Option.some_inj]
      by_cases hne : fromModule ≠ toModule
      · rw [if_pos hne, Option.some_inj]
        constructor
        · rintro rfl
          exact ⟨rfl, rfl, hne⟩
        · rintro ⟨hfst, hsnd, -⟩
          exact Prod.ext hfst hsnd
      · rw [if_neg hne]
        constructor
        · intro h
          cases h
        · rintro ⟨hfst, hsnd, hpair⟩
          exact absurd (hfst ▸ hsnd ▸ hpair) hne

theorem mem_declaredBy {selected : List IndexedFile} {symbol path : String} :
    path ∈ declaredBy selected symbol ↔
      ∃ file ∈ selected, symbol ∈ file.symbols ∧ file.path = path := by
  simp only [declaredBy, mem_unique, List.mem_map, List.mem_filter, decide_eq_true_eq, and_assoc]

/-- One file imports the other, or refers to a symbol that the other declares. -/
inductive Depends (index : RepositoryIndex) (fromFile toFile : String) : Prop
  | edge (edge : DependencyEdge) (hmem : edge ∈ index.edges) (hfrom : edge.fromFile = fromFile)
      (hto : edge.toFile = some toFile)
  | reference (consumer producer : IndexedFile) (symbol : String)
      (hconsumer : consumer ∈ index.files) (hproducer : producer ∈ index.files)
      (hfrom : consumer.path = fromFile) (hto : producer.path = toFile)
      (href : symbol ∈ consumer.referencedSymbols) (hdeclares : symbol ∈ producer.symbols)

theorem mem_couplings {index : RepositoryIndex} :
    pair ∈ couplings estimate index ↔ ∃ fromFile ∈ estimate.paths, ∃ toFile ∈ estimate.paths,
      Depends index fromFile toFile ∧ joined estimate fromFile toFile = some pair := by
  rw [couplings, List.mem_append]
  constructor
  · rintro (h | h)
    · obtain ⟨edge, hedge, hpair⟩ := List.mem_filterMap.1 h
      split at hpair
      · cases hpair
      · rename_i toFile hto
        split at hpair
        · rename_i hselected
          exact ⟨edge.fromFile, hselected.1, toFile, hselected.2, .edge edge hedge rfl hto, hpair⟩
        · cases hpair
    · simp only [referencePairs, List.mem_flatMap, List.mem_filter, List.mem_filterMap,
        mem_declaredBy, decide_eq_true_eq] at h
      obtain ⟨file, ⟨hfile, hpath⟩, symbol, href, _, ⟨producer, ⟨hproducer, hselected⟩,
        hdeclares, rfl⟩, hpair⟩ := h
      exact ⟨file.path, hpath, producer.path, hselected,
        .reference file producer symbol hfile hproducer rfl rfl href hdeclares, hpair⟩
  · rintro ⟨fromFile, hfrom, toFile, hto, hdepends, hpair⟩
    cases hdepends with
    | edge edge hmem hedge htarget =>
      refine .inl (List.mem_filterMap.2 ⟨edge, hmem, ?_⟩)
      rw [htarget, hedge]
      exact (if_pos ⟨hfrom, hto⟩).trans hpair
    | reference consumer producer symbol hconsumer hproducer hc hp href hdeclares =>
      refine .inr ?_
      simp only [referencePairs, List.mem_flatMap, List.mem_filter, List.mem_filterMap,
        mem_declaredBy, decide_eq_true_eq]
      exact ⟨consumer, ⟨hconsumer, hc ▸ hfrom⟩, symbol, href, toFile,
        ⟨producer, ⟨hproducer, hp ▸ hto⟩, hdeclares, hp⟩, hc ▸ hpair⟩

def setOf (estimate : ScopeEstimate) (index : RepositoryIndex) (root : String) : String :=
  (DisjointSets.unions (couplings estimate index)).root root

def pieceOf (footprints : List ModuleFootprint) : CandidatePiece :=
  ⟨footprints.map ModuleFootprint.root, footprints.flatMap ModuleFootprint.files⟩

theorem mergeFootprint_foldl (sets : DisjointSets String) (footprints : List ModuleFootprint) :
    (∀ key, (footprints.foldl mergeFootprint (sets, OrderedMap.empty)).1.root key =
      sets.root key) ∧
    ∀ set, (footprints.foldl mergeFootprint (sets, OrderedMap.empty)).2.get? set =
      if footprints.filter (fun footprint => sets.root footprint.root = set) = [] then none
      else some (pieceOf (footprints.filter fun footprint => sets.root footprint.root = set)) := by
  induction footprints using List.reverseRecOn with
  | nil => exact ⟨fun _ => rfl, fun _ => rfl⟩
  | append_singleton footprints footprint ih =>
    obtain ⟨hroots, hpieces⟩ := ih
    rw [List.foldl_append, List.foldl_cons, List.foldl_nil]
    generalize footprints.foldl mergeFootprint (sets, OrderedMap.empty) = state at hroots hpieces
    refine ⟨fun key => (DisjointSets.root_find _ _ _).trans (hroots key), fun set => ?_⟩
    simp only [mergeFootprint, OrderedMap.get?_set, DisjointSets.find_fst, hroots, hpieces]
    rw [List.filter_append]
    by_cases hset : sets.root footprint.root = set
    · have hlast : [footprint].filter (fun footprint => sets.root footprint.root = set) =
          [footprint] := List.filter_eq_self.2 fun other hother => by
        rw [List.mem_singleton.1 hother]
        exact decide_eq_true hset
      rw [if_pos hset.symm, hlast, if_neg (List.append_ne_nil_of_right_ne_nil _
        (List.cons_ne_nil _ _)), hset]
      split
      · rename_i hnone
        rw [hnone]
        simp only [Option.getD_none, pieceOf, List.nil_append, List.map_cons, List.map_nil,
          List.flatMap_cons, List.flatMap_nil, List.append_nil]
      · simp only [Option.getD_some, pieceOf, List.map_append, List.flatMap_append, List.map_cons,
          List.map_nil, List.flatMap_cons, List.flatMap_nil, List.append_nil]
    · have hlast : [footprint].filter (fun footprint => sets.root footprint.root = set) = [] :=
        List.filter_eq_nil_iff.2 fun other hother => by
          rw [List.mem_singleton.1 hother]
          simpa using hset
      rw [if_neg (fun h => hset h.symm), hlast, List.append_nil]

def footprintsOf (estimate : ScopeEstimate) (index : RepositoryIndex) (set : String) :
    List ModuleFootprint :=
  estimate.modules.filter fun footprint => setOf estimate index footprint.root = set

/-- One piece is the footprints of a set, and the other those of another. -/
def Separate (estimate : ScopeEstimate) (index : RepositoryIndex) (p q : CandidatePiece) :
    Prop :=
  ∃ s t, s ≠ t ∧ p = (pieceOf (footprintsOf estimate index s)).tidy ∧
    q = (pieceOf (footprintsOf estimate index t)).tidy

theorem Separate.symm {index : RepositoryIndex} {p q : CandidatePiece}
    (h : Separate estimate index p q) : Separate estimate index q p := by
  obtain ⟨s, t, hne, hp, hq⟩ := h
  exact ⟨t, s, hne.symm, hq, hp⟩

section
variable {estimate : ScopeEstimate} {index : RepositoryIndex}

theorem merged_get? (set : String) :
    ((estimate.modules.foldl mergeFootprint
        (DisjointSets.unions (couplings estimate index), OrderedMap.empty)).2.get? set) =
      if footprintsOf estimate index set = [] then none
      else some (pieceOf (footprintsOf estimate index set)) :=
  (mergeFootprint_foldl _ _).2 set

variable {footprints : List ModuleFootprint}

theorem mem_files_tidy {file : String} :
    file ∈ (pieceOf footprints).tidy.files ↔ ∃ footprint ∈ footprints, file ∈ footprint.files := by
  simp only [CandidatePiece.tidy, pieceOf, mem_sortStrings, mem_unique, List.mem_flatMap]

theorem mem_modules_tidy {root : String} : root ∈ (pieceOf footprints).tidy.modules ↔
      ∃ footprint ∈ footprints, footprint.root = root := by
  simp only [CandidatePiece.tidy, pieceOf, mem_sortStrings, mem_unique, List.mem_map]

theorem mem_footprintsOf {set : String} {footprint : ModuleFootprint} :
    footprint ∈ footprintsOf estimate index set ↔
      footprint ∈ estimate.modules ∧ setOf estimate index footprint.root = set := by
  rw [footprintsOf, List.mem_filter, decide_eq_true_eq]

variable [TextRuntime]

theorem mem_couplePieces {piece : CandidatePiece} :
    piece ∈ couplePieces estimate index ↔ ∃ set, footprintsOf estimate index set ≠ [] ∧
      piece = (pieceOf (footprintsOf estimate index set)).tidy := by
  rw [couplePieces, sortByLocale, List.mem_insertionSort, List.mem_map]
  simp only [OrderedMap.mem_values_iff, merged_get?]
  constructor
  · rintro ⟨_, ⟨set, hset⟩, rfl⟩
    split at hset
    · cases hset
    · rename_i hne
      exact ⟨set, hne, by rw [Option.some.inj hset]⟩
  · rintro ⟨set, hne, rfl⟩
    exact ⟨_, ⟨set, if_neg hne⟩, rfl⟩

theorem couplePieces_separate :
    (couplePieces estimate index).Pairwise (Separate estimate index) := by
  rw [couplePieces]
  generalize hmerged : (estimate.modules.foldl mergeFootprint
    (DisjointSets.unions (couplings estimate index), OrderedMap.empty)).2 = merged
  have hentry : ∀ entry ∈ merged.entries,
      entry.2 = pieceOf (footprintsOf estimate index entry.1) := by
    intro entry hentry
    have hget := OrderedMap.get?_eq_some_iff.2
      (show (entry.1, entry.2) ∈ merged.entries from hentry)
    rw [← hmerged, merged_get?] at hget
    split at hget
    · cases hget
    · exact (Option.some.inj hget).symm
  have hkeys : merged.entries.Pairwise fun a b => a.1 ≠ b.1 := List.pairwise_map.1 merged.nodup
  refine (List.Perm.pairwise_iff Separate.symm (List.perm_insertionSort _ _)).2 ?_
  rw [OrderedMap.values, List.map_map, List.pairwise_map]
  refine hkeys.imp_of_mem fun {a b} ha hb hne => ?_
  exact ⟨a.1, b.1, hne, by rw [Function.comp_apply, hentry a ha],
    by rw [Function.comp_apply, hentry b hb]⟩

end

/-! ## The partition -/

/-- The modules share the estimate's files out among them. -/
structure ScopeEstimate.Shared (estimate : ScopeEstimate) : Prop where
  once : ∀ footprint ∈ estimate.modules, ∀ other ∈ estimate.modules, ∀ file ∈ footprint.files,
    file ∈ other.files → footprint.root = other.root
  listed : ∀ file, (∃ footprint ∈ estimate.modules, file ∈ footprint.files) ↔
    file ∈ estimate.paths

/-- A file of one module depends on a file of the other. -/
def Coupled (estimate : ScopeEstimate) (index : RepositoryIndex) (left right : String) : Prop :=
  ∃ footprint ∈ estimate.modules, footprint.root = left ∧
    ∃ other ∈ estimate.modules, other.root = right ∧
      ∃ file ∈ footprint.files, ∃ target ∈ other.files, Depends index file target

variable {index : RepositoryIndex} {pieces : List CandidatePiece}

theorem coupled_of_coupling {estimate : ScopeEstimate} {left right : String}
    (h : (left, right) ∈ couplings estimate index) : Coupled estimate index left right := by
  obtain ⟨fromFile, _, toFile, _, hdepends, hjoined⟩ := mem_couplings.1 h
  obtain ⟨hfrom, hto, _⟩ := joined_eq_some.1 hjoined
  obtain ⟨footprint, hfootprint, hroot, hfile⟩ := mem_moduleOf hfrom
  obtain ⟨other, hother, hroot', hfile'⟩ := mem_moduleOf hto
  exact ⟨footprint, hfootprint, hroot, other, hother, hroot', fromFile, hfile, toFile, hfile',
    hdepends⟩

theorem chained_of_setOf_eq {estimate : ScopeEstimate} {left right : String}
    (h : setOf estimate index left = setOf estimate index right) :
    Relation.EqvGen (Coupled estimate index) left right :=
  ((DisjointSets.root_unions_iff _ _ _).1 h).mono fun _ _ => coupled_of_coupling

theorem ScopeEstimate.Shared.moduleOf_eq {estimate : ScopeEstimate} (h : estimate.Shared)
    {footprint : ModuleFootprint} (hmem : footprint ∈ estimate.modules) {file : String}
    (hfile : file ∈ footprint.files) : (moduleOf estimate).get? file = some footprint.root := by
  refine OrderedMap.get?_ofList (List.mem_flatMap.2 ⟨footprint, hmem, List.mem_map.2
    ⟨file, hfile, rfl⟩⟩) fun root hroot => ?_
  simp only [List.mem_flatMap, List.mem_map, Prod.mk.injEq] at hroot
  obtain ⟨other, hother, name, hname, rfl, rfl⟩ := hroot
  exact (h.once footprint hmem other hother name hfile hname).symm

theorem ScopeEstimate.Shared.setOf_eq {estimate : ScopeEstimate} (h : estimate.Shared)
    {footprint other : ModuleFootprint} (hmem : footprint ∈ estimate.modules)
    (hother : other ∈ estimate.modules) {file target : String} (hfile : file ∈ footprint.files)
    (htarget : target ∈ other.files) (hdepends : Depends index file target) :
    setOf estimate index footprint.root = setOf estimate index other.root := by
  by_cases heq : footprint.root = other.root
  · rw [heq]
  · refine (DisjointSets.root_unions_iff _ _ _).2 (.rel _ _ (mem_couplings.2 ?_))
    exact ⟨file, (h.listed file).1 ⟨footprint, hmem, hfile⟩, target,
      (h.listed target).1 ⟨other, hother, htarget⟩, hdepends,
      joined_eq_some.2 ⟨h.moduleOf_eq hmem hfile, h.moduleOf_eq hother htarget, heq⟩⟩

theorem Separate.apart {estimate : ScopeEstimate} (hshared : estimate.Shared) {p q : CandidatePiece}
    (h : Separate estimate index p q) :
    ∀ file ∈ p.files, ∀ target ∈ q.files, file ≠ target ∧ ¬Depends index file target := by
  obtain ⟨s, t, hne, rfl, rfl⟩ := h
  intro file hfile target htarget
  obtain ⟨footprint, hfootprint, hin⟩ := mem_files_tidy.1 hfile
  obtain ⟨other, hother, hin'⟩ := mem_files_tidy.1 htarget
  obtain ⟨hmem, rfl⟩ := mem_footprintsOf.1 hfootprint
  obtain ⟨hmem', rfl⟩ := mem_footprintsOf.1 hother
  refine ⟨fun heq => hne ?_, fun hdepends => hne ?_⟩
  · rw [hshared.once footprint hmem other hmem' file hin (heq ▸ hin')]
  · exact hshared.setOf_eq hmem hmem' hin hin' hdepends

/-- A task's subtasks are a partition of its estimate along every visible dependency. -/
structure Partition (input : DecompositionInput) (subtasks : List SubtaskProposal) : Prop where
  disjoint : subtasks.Pairwise fun s t => ∀ file ∈ s.files, file ∉ t.files
  covers : ∀ file, (∃ s ∈ subtasks, file ∈ s.files) ↔ file ∈ input.estimate.paths
  apart : subtasks.Pairwise fun s t => ∀ file ∈ s.files, ∀ target ∈ t.files,
    ¬Depends input.index file target ∧ ¬Depends input.index target file
  chained : ∀ s ∈ subtasks, ∀ left ∈ s.modules, ∀ right ∈ s.modules,
    Relation.EqvGen (Coupled input.estimate input.index) left right
  enough : ∀ s ∈ subtasks, input.options.minFilesPerSubtask ≤ s.files.length
  substance : ∀ s ∈ subtasks, s.files ≠ [] → ∃ file ∈ s.files, manifestFile file = false
  relief : input.options.mode = .contended → ∃ s ∈ subtasks, ∀ entry ∈ input.contention,
    (∀ root ∈ s.modules, root ∉ entry.modules) ∧ ∀ file ∈ s.files, file ∉ entry.files.getD []

def SubtaskProposal.piece (s : SubtaskProposal) : CandidatePiece := ⟨s.modules, s.files⟩

theorem subtasksOf_pieces (input : DecompositionInput) (pieces : List CandidatePiece) :
    (subtasksOf input pieces).map SubtaskProposal.piece = pieces := by
  rw [subtasksOf, List.map_map]
  exact List.zipIdx_map_fst 0 pieces

theorem mem_subtasksOf {input : DecompositionInput} {piece : CandidatePiece} :
    (∃ s ∈ subtasksOf input pieces, s.piece = piece) ↔ piece ∈ pieces := by
  rw [← List.mem_map, subtasksOf_pieces]

theorem subtasksOf_pairwise {input : DecompositionInput}
    {R : CandidatePiece → CandidatePiece → Prop} (h : pieces.Pairwise R) :
    (subtasksOf input pieces).Pairwise fun s t => R s.piece t.piece := by
  rw [← List.pairwise_map, subtasksOf_pieces]
  exact h

/-! ## The grouping of an estimate -/

/-- What the grouping of some files has so far: each file in the module of its root. -/
structure Grouped (roots : List String) (files : List EstimatedFile)
    (grouped : OrderedMap String ModuleFootprint) : Prop where
  own : ∀ root footprint, grouped.get? root = some footprint →
    footprint.root = root ∧ ∀ file ∈ footprint.files, moduleRootFor file roots = root
  listed : ∀ file, (∃ root footprint, grouped.get? root = some footprint ∧
    file ∈ footprint.files) ↔ file ∈ files.map EstimatedFile.path

theorem Grouped.add {roots : List String} {files : List EstimatedFile}
    {grouped : OrderedMap String ModuleFootprint} (h : Grouped roots files grouped)
    (file : EstimatedFile) :
    Grouped roots (files ++ [file]) (addToModule roots grouped file) := by
  have hbase : ((grouped.get? (moduleRootFor file.path roots)).getD
      ⟨moduleRootFor file.path roots, [], 0, false⟩).root = moduleRootFor file.path roots ∧
      ∀ name ∈ ((grouped.get? (moduleRootFor file.path roots)).getD
        ⟨moduleRootFor file.path roots, [], 0, false⟩).files,
        moduleRootFor name roots = moduleRootFor file.path roots := by
    cases hget : grouped.get? (moduleRootFor file.path roots) with
    | none => exact ⟨rfl, fun _ hname => by cases hname⟩
    | some footprint => exact h.own _ _ hget
  refine ⟨fun root footprint hget => ?_, fun name => ?_⟩
  · rw [addToModule, OrderedMap.get?_set] at hget
    split at hget
    · rename_i hroot
      rw [← Option.some.inj hget, hroot]
      refine ⟨hbase.1, fun name hname => ?_⟩
      rcases List.mem_append.1 hname with hname | hname
      · exact hbase.2 name hname
      · rw [List.mem_singleton.1 hname]
    · exact h.own root footprint hget
  · rw [List.map_append, List.mem_append, ← h.listed]
    simp only [addToModule, OrderedMap.get?_set, List.map_cons, List.map_nil, List.mem_singleton]
    constructor
    · rintro ⟨root, footprint, hget, hname⟩
      split at hget
      · rename_i hroot
        rw [← Option.some.inj hget] at hname
        rcases List.mem_append.1 hname with hname | hname
        · refine .inl ?_
          cases hold : grouped.get? (moduleRootFor file.path roots) with
          | none => rw [hold] at hname; cases hname
          | some old => exact ⟨_, old, hold, by rwa [hold] at hname⟩
        · exact .inr (List.mem_singleton.1 hname)
      · exact .inl ⟨root, footprint, hget, hname⟩
    · rintro (⟨root, footprint, hget, hname⟩ | rfl)
      · by_cases hroot : root = moduleRootFor file.path roots
        · refine ⟨root, _, if_pos hroot, List.mem_append_left _ ?_⟩
          rw [← hroot, hget]
          exact hname
        · exact ⟨root, footprint, (if_neg hroot).trans hget, hname⟩
      · exact ⟨_, _, if_pos rfl, List.mem_append_right _ List.mem_cons_self⟩

theorem addToModule_grouped (roots : List String) (files : List EstimatedFile) :
    Grouped roots files (files.foldl (addToModule roots) OrderedMap.empty) := by
  induction files using List.reverseRecOn with
  | nil =>
    refine ⟨(fun _ _ h => by cases h), fun file => ⟨?_, (fun h => by cases h)⟩⟩
    rintro ⟨_, _, h, _⟩
    cases h
  | append_singleton files file ih =>
    rw [List.foldl_append]
    exact ih.add file

/-- **The grouping shares the files out**: an estimate with the modules that its
    files are grouped into lists each of them in one module. -/
theorem groupModules_shared [TextRuntime] (roots : List String) (estimate : ScopeEstimate) :
    { estimate with modules := groupModules roots estimate.files }.Shared := by
  have hgrouped := addToModule_grouped roots estimate.files
  have hmodule : ∀ footprint ∈ groupModules roots estimate.files, ∃ old,
      (estimate.files.foldl (addToModule roots) OrderedMap.empty).get? footprint.root = some old ∧
        ∀ file, file ∈ footprint.files ↔ file ∈ old.files := by
    intro footprint hfootprint
    rw [groupModules, List.mem_map] at hfootprint
    obtain ⟨old, hold, rfl⟩ := hfootprint
    rw [List.mem_insertionSort, OrderedMap.mem_values_iff] at hold
    obtain ⟨root, hget⟩ := hold
    obtain ⟨rfl, _⟩ := hgrouped.own root old hget
    exact ⟨old, hget, fun file => mem_sortStrings⟩
  refine ⟨fun footprint hfootprint other hother file hfile hfile' => ?_, fun file => ?_⟩
  · obtain ⟨old, hget, hin⟩ := hmodule footprint hfootprint
    obtain ⟨old', hget', hin'⟩ := hmodule other hother
    rw [← (hgrouped.own _ old hget).2 file ((hin file).1 hfile),
      ← (hgrouped.own _ old' hget').2 file ((hin' file).1 hfile')]
  · show _ ↔ file ∈ estimate.files.map EstimatedFile.path
    rw [← hgrouped.listed]
    constructor
    · rintro ⟨footprint, hfootprint, hfile⟩
      obtain ⟨old, hget, hin⟩ := hmodule footprint hfootprint
      exact ⟨_, old, hget, (hin file).1 hfile⟩
    · rintro ⟨root, old, hget, hfile⟩
      refine ⟨{ old with files := sortStrings old.files }, ?_, mem_sortStrings.2 hfile⟩
      exact List.mem_map.2 ⟨old, (List.mem_insertionSort _).2
        (OrderedMap.mem_values_iff.2 ⟨root, hget⟩), rfl⟩

/-! ## The vetoes -/

theorem no_veto {vetoes : List Veto} (h : vetoes.find? Veto.applies = none) {veto : Veto}
    (hmem : veto ∈ vetoes) : veto.applies = false :=
  Bool.eq_false_iff.2 (List.find?_eq_none.1 h veto hmem)

theorem not_overlaps {contention : List ContendingWork} {piece : CandidatePiece}
    (h : overlaps contention piece = false) {entry : ContendingWork} (hentry : entry ∈ contention) :
    (∀ root ∈ piece.modules, root ∉ entry.modules) ∧
      ∀ file ∈ piece.files, file ∉ entry.files.getD [] := by
  simp only [overlaps, Bool.or_eq_false_iff, List.any_eq_false, decide_eq_true_eq,
    List.mem_flatMap, not_exists, not_and] at h
  exact ⟨fun root hroot => h.1 root hroot entry hentry,
    fun file hfile => h.2 file hfile entry hentry⟩

theorem pieces_pass [Printer] {input : DecompositionInput}
    (h : (pieceVetoes input pieces).find? Veto.applies = none) :
    ∀ piece ∈ pieces, input.options.minFilesPerSubtask ≤ piece.files.length ∧
      manifestOnly piece.files = false := by
  have hthin := no_veto h List.mem_cons_self
  have hmanifest := no_veto h (List.mem_cons_of_mem _ List.mem_cons_self)
  simp only [ne_eq, decide_not, Bool.not_eq_false', decide_eq_true_eq,
    List.filter_eq_nil_iff, not_lt, Bool.not_eq_true] at hthin hmanifest
  exact fun piece hpiece => ⟨hthin piece hpiece, hmanifest piece hpiece⟩

theorem relief_of_contention {input : DecompositionInput}
    (h : (contentionVetoes input pieces).find? Veto.applies = none)
    (hmode : input.options.mode = .contended) :
    ∃ piece ∈ pieces, overlaps input.contention piece = false := by
  have hfree := no_veto h (List.mem_cons_of_mem _ List.mem_cons_self)
  simp only [hmode, decide_true, Bool.true_and, decide_eq_false_iff_not, List.filter_eq_nil_iff,
    Bool.not_eq_true', Bool.not_eq_false, not_forall] at hfree
  obtain ⟨piece, hpiece, hoverlaps⟩ := hfree
  exact ⟨piece, hpiece, Bool.eq_false_iff.2 hoverlaps⟩

theorem veto_reason [Printer] {input : DecompositionInput} {veto : Veto}
    (h : veto ∈ estimateVetoes input ++ pieceVetoes input pieces ++ contentionVetoes input pieces) :
    veto.reason ≠ .split := by
  have hreasons : (estimateVetoes input ++ pieceVetoes input pieces ++
      contentionVetoes input pieces).map Veto.reason =
        [.disabled, .unknownScope, .weakScope, .diffuseEstimate, .tooSmall, .singleModule,
          .atomicObjective, .tooFragmented, .manifestOnlyPiece, .coupledModules, .tooFragmented,
          .noContention, .noRelief] := rfl
  intro hsplit
  have hmem : veto.reason ∈ _ := List.mem_map_of_mem h
  rw [hreasons, hsplit] at hmem
  revert hmem
  decide

theorem exists_substance {files : List String} (h : manifestOnly files = false)
    (hne : files ≠ []) : ∃ file ∈ files, manifestFile file = false := by
  simp only [manifestOnly, hne, ne_eq, not_false_eq_true, decide_true, Bool.true_and,
    List.all_eq_false, Bool.not_eq_true] at h
  exact h

section
variable [TextRuntime] [Printer]

theorem subtasksOf_partition {input : DecompositionInput} (hshared : input.estimate.Shared)
    (hpieces : (pieceVetoes input (couplePieces input.estimate input.index)).find?
      Veto.applies = none)
    (hcontention : (contentionVetoes input (couplePieces input.estimate input.index)).find?
      Veto.applies = none) :
    Partition input (subtasksOf input (couplePieces input.estimate input.index)) := by
  have hpiece : ∀ s ∈ subtasksOf input (couplePieces input.estimate input.index),
      s.piece ∈ couplePieces input.estimate input.index := fun s hs => mem_subtasksOf.1 ⟨s, hs, rfl⟩
  have hpass := fun s hs => pieces_pass hpieces _ (hpiece s hs)
  refine ⟨?_, fun file => ⟨?_, fun hfile => ?_⟩, ?_, fun s hs left hleft right hright => ?_,
    fun s hs => (hpass s hs).1, fun s hs hne => exists_substance (hpass s hs).2 hne,
    fun hmode => ?_⟩
  · refine (subtasksOf_pairwise couplePieces_separate).imp fun h file hs ht => ?_
    exact (h.apart hshared file hs file ht).1 rfl
  · rintro ⟨s, hs, hfile⟩
    obtain ⟨set, _, heq⟩ := mem_couplePieces.1 (hpiece s hs)
    have hin : file ∈ s.piece.files := hfile
    rw [heq] at hin
    obtain ⟨footprint, hfootprint, hin⟩ := mem_files_tidy.1 hin
    exact (hshared.listed file).1 ⟨footprint, (mem_footprintsOf.1 hfootprint).1, hin⟩
  · obtain ⟨footprint, hfootprint, hin⟩ := (hshared.listed file).2 hfile
    have hmem := mem_footprintsOf.2
      ⟨hfootprint, (rfl : setOf input.estimate input.index footprint.root = _)⟩
    obtain ⟨s, hs, heq⟩ := mem_subtasksOf.2
      (mem_couplePieces.2 ⟨_, List.ne_nil_of_mem hmem, rfl⟩)
    exact ⟨s, hs, show file ∈ s.piece.files from
      heq ▸ mem_files_tidy.2 ⟨footprint, hmem, hin⟩⟩
  · refine (subtasksOf_pairwise couplePieces_separate).imp fun h file hs target ht => ?_
    exact ⟨(h.apart hshared file hs target ht).2, (h.symm.apart hshared target ht file hs).2⟩
  · obtain ⟨set, _, heq⟩ := mem_couplePieces.1 (hpiece s hs)
    have hleft' : left ∈ s.piece.modules := hleft
    have hright' : right ∈ s.piece.modules := hright
    rw [heq] at hleft' hright'
    obtain ⟨footprint, hfootprint, rfl⟩ := mem_modules_tidy.1 hleft'
    obtain ⟨other, hother, rfl⟩ := mem_modules_tidy.1 hright'
    exact chained_of_setOf_eq
      ((mem_footprintsOf.1 hfootprint).2.trans (mem_footprintsOf.1 hother).2.symm)
  · obtain ⟨piece, hmem, hfree⟩ := relief_of_contention hcontention hmode
    obtain ⟨s, hs, rfl⟩ := mem_subtasksOf.2 hmem
    exact ⟨s, hs, fun entry hentry => not_overlaps hfree hentry⟩

/-- **A task split is a partition along every visible dependency**: of an
    estimate whose modules share its files out among them. A task that is not
    split has no subtask, whatever its estimate. -/
theorem decomposeTask_partition (input : DecompositionInput) :
    ((decomposeTask input).split = true → input.estimate.Shared →
      Partition input (decomposeTask input).subtasks) ∧
    ((decomposeTask input).split = false → (decomposeTask input).subtasks = []) := by
  rw [decomposeTask]
  split
  · rename_i veto hveto
    have hreason := veto_reason (List.mem_append_left _ (List.mem_of_find?_eq_some hveto))
    exact ⟨fun h => absurd (of_decide_eq_true h) hreason, fun _ => rfl⟩
  · rename_i hnone
    split
    · rename_i veto hveto
      have hreason := veto_reason (List.mem_append_right _ (List.mem_of_find?_eq_some hveto))
      exact ⟨fun h => absurd (of_decide_eq_true h) hreason, fun _ => rfl⟩
    · rename_i hcontention
      rw [List.find?_append, Option.or_eq_none_iff] at hnone
      exact ⟨fun _ hshared => subtasksOf_partition hshared hnone.2 hcontention,
        (fun h => by cases h)⟩

end

/-! ## A file listed under two modules -/

@[reducible] def plainPrinter : Printer := ⟨fun x => toString x.num, fun n => toString n⟩

def twoModules : DecompositionInput where
  objective := "Go"
  estimate := ⟨.anchored, 1 / 10,
    ["a/one.ts", "a/two.ts", "b/one.ts", "b/two.ts"].map fun path => ⟨path, 4, true⟩,
    [⟨"a", ["a/one.ts", "a/two.ts"], 8, true⟩, ⟨"b", ["b/one.ts", "b/two.ts"], 8, true⟩]⟩
  index := ⟨[], [], [], 0⟩
  options := { mode := .always }

def sharedFile : DecompositionInput :=
  { twoModules with
    estimate := ⟨.anchored, 1 / 10,
      ["a/one.ts", "a/two.ts", "b/one.ts", "shared.ts"].map fun path => ⟨path, 4, true⟩,
      [⟨"a", ["a/one.ts", "a/two.ts", "shared.ts"], 12, true⟩,
        ⟨"b", ["b/one.ts", "shared.ts"], 8, true⟩]⟩ }

theorem twoModules_shared : twoModules.estimate.Shared := by
  refine ⟨by decide, fun file => ?_⟩
  simp only [twoModules, ScopeEstimate.paths, List.mem_cons, List.not_mem_nil, or_false,
    exists_eq_or_imp, exists_eq_left, List.map_cons, List.map_nil, or_assoc]

theorem decomposeTask_partition_twoModules :
    Partition twoModules (@decomposeTask asciiRuntime plainPrinter twoModules).subtasks :=
  (@decomposeTask_partition asciiRuntime plainPrinter twoModules).1 (by decide +kernel)
    twoModules_shared

/-- **A file listed under two modules goes to two subtasks.** -/
theorem decomposeTask_shares_file :
    (@decomposeTask asciiRuntime plainPrinter sharedFile).split = true ∧
      ¬Partition sharedFile (@decomposeTask asciiRuntime plainPrinter sharedFile).subtasks := by
  have hfiles : ((@decomposeTask asciiRuntime plainPrinter sharedFile).split,
      (@decomposeTask asciiRuntime plainPrinter sharedFile).subtasks.map SubtaskProposal.files) =
        (true, [["a/one.ts", "a/two.ts", "shared.ts"], ["b/one.ts", "shared.ts"]]) := by
    decide +kernel
  rw [Prod.mk.injEq] at hfiles
  refine ⟨hfiles.1, fun h => ?_⟩
  have hdisjoint : ((@decomposeTask asciiRuntime plainPrinter sharedFile).subtasks.map
      SubtaskProposal.files).Pairwise fun files others => ∀ file ∈ files, file ∉ others :=
    List.pairwise_map.2 h.disjoint
  rw [hfiles.2] at hdisjoint
  revert hdisjoint
  decide

end AgenticGit.Coordinator.Decomposition
