import AgenticGit.Shared.Paths

/- Plans, claims and leases: the data of `shared-types` arbitration reads, and
   the functions that read one plan.

   Correspondence (TypeScript ↔ Lean):
     an optional field `f?: T`               ↔ `f : Option T`, absent is `none`
     a union of string literals              ↔ an inductive type
     `PlanClaim`, a union on `kind`          ↔ `PlanClaim`, one constructor a kind
     a function that normalizes paths        ↔ `Except PathError` -/
namespace AgenticGit.Shared
open AgenticGit.Runtime

inductive ResourceType where
  | file | symbol | api | schema | configuration | test | service
  deriving DecidableEq, Repr

def ResourceType.name : ResourceType → String
  | .file => "file"
  | .symbol => "symbol"
  | .api => "api"
  | .schema => "schema"
  | .configuration => "configuration"
  | .test => "test"
  | .service => "service"

inductive OwnershipMode where
  | observe | shared | intent | exclusive | approvalRequired
  deriving DecidableEq, Repr

def OwnershipMode.name : OwnershipMode → String
  | .observe => "observe"
  | .shared => "shared"
  | .intent => "intent"
  | .exclusive => "exclusive"
  | .approvalRequired => "approval_required"

/-! ## Lines -/

/-- A span of lines in one file. Both ends are 1-based and inclusive. -/
structure LineRange where
  startLine : Int
  endLine : Int
  deriving DecidableEq, Repr

namespace LineRange

def Mem (range : LineRange) (line : Int) : Prop := range.startLine ≤ line ∧ line ≤ range.endLine

/-- A span written with lines that exist and that the runtime counts exactly. -/
structure Valid (range : LineRange) : Prop where
  start_pos : 1 ≤ range.startLine
  start_safe : IsSafeInteger range.startLine
  end_safe : IsSafeInteger range.endLine

instance (range : LineRange) : Decidable range.Valid :=
  decidable_of_iff
    (1 ≤ range.startLine ∧ IsSafeInteger range.startLine ∧ IsSafeInteger range.endLine)
    ⟨fun h => ⟨h.1, h.2.1, h.2.2⟩, fun h => ⟨h.start_pos, h.start_safe, h.end_safe⟩⟩

end LineRange

/-! ## Plans -/

structure PlanResourceRef where
  resourceType : ResourceType
  resourceId : String
  deriving DecidableEq, Repr

inductive PlanGroundingConfidence where
  | verified | grounded | ungrounded
  deriving DecidableEq, Repr

/-- A declared file that does not exist, mapped to the real file it names. -/
structure GroundedFileReference where
  declared : String
  resolved : String
  deriving DecidableEq, Repr

/-- A declared symbol the repository cannot locate, mapped to its likely real
counterpart and the files where that is declared. -/
structure GroundedSymbolReference where
  declared : String
  resolved : String
  files : List String
  deriving DecidableEq, Repr

structure PlanGrounding where
  confidence : PlanGroundingConfidence
  missingFiles : List String
  unresolvedSymbols : List String
  fileReferents : List GroundedFileReference
  symbolReferents : List GroundedSymbolReference
  notes : List String
  deriving DecidableEq, Repr

/-- One plan's own declarations, kept apart from what enrichment added. -/
structure PlanDeclarations where
  symbols : Option (List String) := none
  dependencies : Option (List String) := none
  apis : Option (List String) := none
  schemas : Option (List String) := none
  configKeys : Option (List String) := none
  tests : Option (List String) := none
  services : Option (List String) := none
  deriving DecidableEq, Repr

/-- How a plan's scope was arrived at, when no agent wrote it down. -/
inductive PlanClaim where
  /-- The whole repository, less the files given back. -/
  | blanket (released : Option (List String))
  /-- The directories a holder was observed in. -/
  | frozen (directories : List String)
  /-- The files held whole although their holder did not name them. -/
  | declared (held : List String)
  deriving DecidableEq, Repr

structure AgentPlan where
  taskId : String
  objective : String
  expectedFiles : List String
  expectedSymbols : List String
  declared : Option PlanDeclarations := none
  expectedApis : Option (List String) := none
  expectedSchemas : Option (List String) := none
  expectedConfigKeys : Option (List String) := none
  expectedTests : Option (List String) := none
  expectedServices : Option (List String) := none
  dependencies : List String := []
  /-- What the plan depends on could not be read. -/
  dependenciesUnknown : Bool := false
  externalAccess : List String := []
  intent : Option String := none
  grounding : Option PlanGrounding := none
  claim : Option PlanClaim := none
  deriving DecidableEq, Repr

/-- A plan with every optional resource collection populated. -/
structure CompleteAgentPlan where
  taskId : String
  objective : String
  expectedFiles : List String
  expectedSymbols : List String
  declared : Option PlanDeclarations
  expectedApis : List String
  expectedSchemas : List String
  expectedConfigKeys : List String
  expectedTests : List String
  expectedServices : List String
  dependencies : List String
  dependenciesUnknown : Bool
  externalAccess : List String
  intent : String
  grounding : Option PlanGrounding
  claim : Option PlanClaim
  deriving DecidableEq, Repr

def completeAgentPlan (plan : AgentPlan) : CompleteAgentPlan where
  taskId := plan.taskId
  objective := plan.objective
  expectedFiles := plan.expectedFiles
  expectedSymbols := plan.expectedSymbols
  declared := plan.declared
  expectedApis := plan.expectedApis.getD []
  expectedSchemas := plan.expectedSchemas.getD []
  expectedConfigKeys := plan.expectedConfigKeys.getD []
  expectedTests := plan.expectedTests.getD []
  expectedServices := plan.expectedServices.getD []
  dependencies := plan.dependencies
  dependenciesUnknown := plan.dependenciesUnknown
  externalAccess := plan.externalAccess
  intent := plan.intent.getD plan.objective
  grounding := plan.grounding
  claim := plan.claim

/-- The symbols the agent itself named: `plan.declared?.symbols ?? plan.expectedSymbols`. -/
def AgentPlan.ownSymbols (plan : AgentPlan) : List String :=
  (plan.declared.bind PlanDeclarations.symbols).getD plan.expectedSymbols

/-! ## What arbitration reads a plan as -/

/-- A plan without a grounding record is treated as verified. -/
def planGroundingConfidence (plan : AgentPlan) : PlanGroundingConfidence :=
  (plan.grounding.map PlanGrounding.confidence).getD .verified

/-- The declared files and every real file its declarations were grounded to. -/
def arbitrationFiles (plan : AgentPlan) : Except PathError (List String) :=
  match plan.grounding with
  | none => .ok plan.expectedFiles
  | some grounding =>
    uniqueRepositoryPaths
      (plan.expectedFiles ++ grounding.fileReferents.map GroundedFileReference.resolved ++
        grounding.symbolReferents.flatMap GroundedSymbolReference.files)

/-- The agent's own symbols and the referents of those. -/
def arbitrationSymbols [TextRuntime] (plan : AgentPlan) : List String :=
  let declared := plan.ownSymbols
  match plan.grounding with
  | none => declared
  | some grounding =>
    let own := declared.map toLowerCase
    uniqueStrings
      (declared ++ (grounding.symbolReferents.filter fun entry =>
        toLowerCase entry.declared ∈ own).map GroundedSymbolReference.resolved)

/-! ## Claims -/

/-- Whether this plan is a repository-wide claim nobody has narrowed yet. -/
def isBlanketClaim (plan : AgentPlan) : Bool :=
  match plan.claim with
  | some (.blanket _) => true
  | _ => false

def startsWith (file directory : String) : Bool := directory.toList.isPrefixOf file.toList

def claimCoversPath (plan : AgentPlan) (file : String) : Except PathError Bool :=
  match plan.claim with
  | none => .ok false
  | some (.blanket released) => .ok (file ∉ released.getD [])
  | some (.declared held) => do return file ∈ (← uniqueRepositoryPaths held)
  | some (.frozen directories) => .ok (directories.any (startsWith file))

/-- Whether a claim makes its holder occupy a path, for arbitration. -/
def claimOccupiesPath (plan : AgentPlan) (file : String) : Except PathError Bool :=
  match plan.claim with
  | none => .ok false
  | some (.blanket released) => do return file ∉ (← uniqueRepositoryPaths (released.getD []))
  | some (.declared held) => do return file ∈ (← uniqueRepositoryPaths held)
  | some (.frozen _) => do return file ∈ (← uniqueRepositoryPaths plan.expectedFiles)

/-! ## Leases -/

/-- A lease. `expiresAt` is the instant its ISO string names, in milliseconds. -/
structure ResourceLease where
  leaseId : String
  resourceType : ResourceType
  resourceId : String
  principalId : String
  taskId : String
  mode : OwnershipMode
  baseVersion : Int
  expiresAt : Int
  /-- The lines the lease covers; absent means all of them. -/
  ranges : Option (List LineRange) := none
  deriving DecidableEq, Repr

end AgenticGit.Shared
