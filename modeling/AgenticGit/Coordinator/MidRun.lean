import AgenticGit.Shared.ChangeSet
import AgenticGit.CodeIntelligence.EnrichPlan

/- What an agent may ask for while it works, and the plan each request asks for
   (`handleAgentEvent`, `handleReplanProposal` and `handleScopeRelease` of
   `coordinator.ts`).

   Each of the three computes a revised plan from the one in force, has it decided by
   the rest of the wave, the plan authority, the approval policy and the ownership
   ledger, and puts it in force or leaves the old one. Which way a decision goes is not
   computed here.

   Correspondence (TypeScript ↔ Lean):
     `entry`, a planned task; `entry.decision.ownershipGrants` ↔ `PlannedTask`
     the `try` of a handler, up to its first question          ↔ `MidRunRequest.revise`,
       `none` where it throws
     `planClaimedResources(plan).get(key)`                     ↔ `claimedAs`
     `listWorkingChanges`, `undefined` where there is none     ↔ an `Option` -/
namespace AgenticGit.Coordinator
open AgenticGit.Runtime AgenticGit.Shared AgenticGit.CodeIntelligence

structure PlannedTask where
  taskId : String
  agentId : String
  plan : AgentPlan
  planRevision : Int
  /-- The answer that narrowed the plan, when one did. -/
  admission : Option PlanAdmission := none
  ownershipGrants : List ResourceLease := []
  deriving DecidableEq, Repr

/-! ## Requests -/

structure ScopeReleaseRequest where
  id : String
  taskId : String
  releasedFiles : List String := []
  releasedSymbols : List String := []
  releasedApis : List String := []
  releasedSchemas : List String := []
  releasedConfigKeys : List String := []
  releasedTests : List String := []
  releasedServices : List String := []
  reason : String
  deriving DecidableEq, Repr

def refsOf (type : ResourceType) (ids : List String) : List PlanResourceRef :=
  ids.map fun id => ⟨type, id⟩

def scopeReleaseResources (request : ScopeReleaseRequest) : List PlanResourceRef :=
  refsOf .file request.releasedFiles ++ refsOf .symbol request.releasedSymbols ++
    refsOf .api request.releasedApis ++ refsOf .schema request.releasedSchemas ++
    refsOf .configuration request.releasedConfigKeys ++ refsOf .test request.releasedTests ++
    refsOf .service request.releasedServices

/-- Every resource a plan claims, as the plan itself spells it. -/
def planClaimedResources (plan : AgentPlan) : List PlanResourceRef :=
  refsOf .file plan.expectedFiles ++ refsOf .symbol plan.expectedSymbols ++
    refsOf .api (plan.expectedApis.getD []) ++ refsOf .schema (plan.expectedSchemas.getD []) ++
    refsOf .configuration (plan.expectedConfigKeys.getD []) ++
    refsOf .test (plan.expectedTests.getD []) ++
    refsOf .service (plan.expectedServices.getD [])

def releaseFromBlanketClaim (plan : AgentPlan) (files : List String) : AgentPlan :=
  match plan.claim with
  | some (.blanket released) =>
    if files.length = 0 then plan
    else { plan with
      claim := some (.blanket (some (sortStrings (unique (released.getD [] ++ files))))) }
  | _ => plan

section
variable [TextRuntime]

/-- What the plan calls a resource; of two spellings the later one. -/
def claimedAs (plan : AgentPlan) (ref : PlanResourceRef) : Option PlanResourceRef :=
  (planClaimedResources plan).reverse.find? fun own =>
    planResourceKey own.resourceType own.resourceId = planResourceKey ref.resourceType ref.resourceId

/-- What a task can give back of what it was asked to: what its plan claims, or a file a
claim covers. -/
def releasable (plan : AgentPlan) (ref : PlanResourceRef) :
    Except PathError (Option PlanResourceRef) :=
  match claimedAs plan ref with
  | some own => .ok (some own)
  | none =>
    if ref.resourceType = .file then do
      return if ← claimCoversPath plan ref.resourceId then some ref else none
    else .ok none

/-- The plan less what is given back. A file with edits in it is not given back. -/
def releasedPlan (plan : AgentPlan) (request : ScopeReleaseRequest)
    (working : Option (List String)) : Option AgentPlan := do
  let asked := scopeReleaseResources request
  if asked.length = 0 ∨ request.reason = "" then none
  else
    let found ← (asked.mapM (releasable plan)).toOption
    let resources := found.reduceOption
    if resources.length = 0 then none
    else
      let files := (resources.filter fun ref => ref.resourceType = .file).map
        PlanResourceRef.resourceId
      let clean := working.any fun changes => changes.all (· ∉ files)
      if 0 < files.length ∧ ¬ clean then none
      else
        let reduced ← (reducePlanScope plan resources).toOption
        return releaseFromBlanketClaim reduced (unique files)

/-- What an agent asks for while it works. -/
inductive MidRunRequest where
  | scopeChange (request : ScopeChangeRequest)
  | replan (proposed : AgentPlan) (reason : String)
  | scopeRelease (request : ScopeReleaseRequest) (working : Option (List String))
  deriving DecidableEq, Repr

def ScopeChangeRequest.resourceCount (request : ScopeChangeRequest) : Nat :=
  request.additionalFiles.length + request.additionalSymbols.length +
    request.additionalApis.length + request.additionalSchemas.length +
    request.additionalConfigKeys.length + request.additionalTests.length +
    request.additionalServices.length

def MidRunRequest.revise (ground : Grounding) (index : RepositoryIndex) (task : PlannedTask) :
    MidRunRequest → Option AgentPlan
  | .scopeChange request =>
    if ScopeChangeRequest.resourceCount request = 0 ∨ request.reason = "" then none
    else do
      let widened ← (mergePlanScope task.plan request).toOption
      (groundPlan ground widened index).toOption
  | .replan proposed reason => do
    let proposed ← (assertAgentPlan proposed).toOption
    if proposed.taskId ≠ task.taskId ∨ trim reason = "" then none
    else (groundPlan ground proposed index).toOption
  | .scopeRelease request working => releasedPlan task.plan request working

/-! ## Decisions -/

/-- A request and how it was decided. `leases` is what ownership hands out, or takes
back when it is a release. -/
structure MidRunDecision where
  request : MidRunRequest
  index : RepositoryIndex
  granted : Bool
  leases : List ResourceLease
  deriving DecidableEq, Repr

def MidRunRequest.grants (held leases : List ResourceLease) : MidRunRequest → List ResourceLease
  | .scopeRelease _ _ =>
    held.filter fun lease => lease.leaseId ∉ leases.map ResourceLease.leaseId
  | _ => held ++ leases

/-- Puts a granted plan in force, and leaves the task as it was otherwise. -/
def PlannedTask.decide (ground : Grounding) (task : PlannedTask) (decision : MidRunDecision) :
    PlannedTask :=
  if decision.granted then
    match decision.request.revise ground decision.index task with
    | none => task
    | some plan => { task with
        plan
        planRevision := task.planRevision + 1
        ownershipGrants := decision.request.grants task.ownershipGrants decision.leases }
  else task

variable {ground : Grounding} {task : PlannedTask}

/-- A decision never touches the answer the task was admitted with. -/
@[simp] theorem admission_decide {decision : MidRunDecision} :
    (task.decide ground decision).admission = task.admission := by
  unfold PlannedTask.decide
  split
  · split <;> rfl
  · rfl

theorem admission_decisions {decisions : List MidRunDecision} :
    (decisions.foldl (PlannedTask.decide ground) task).admission = task.admission := by
  induction decisions generalizing task with
  | nil => rfl
  | cons decision decisions ih => rw [List.foldl_cons, ih, admission_decide]

end

end AgenticGit.Coordinator
