import AgenticGit.Shared.ChangeSet

/- What a remote worker submits and is answered: the parts of `AgentPlan` and
   `PlanAdmission` that only the control plane's own record of a lease reads.

   Correspondence (TypeScript ↔ Lean):
     `AgentPlan` with its `riskLevel`                      ↔ `RemotePlan`
     `PlanAdmission` with `awaitingApproval`, `approvalId`, `runId` ↔ `RemoteAdmission`
     `createId("approval")`, `createId("run")`             ↔ the position in the table:
       two calls never answer the same -/
namespace AgenticGit.Shared

inductive RiskLevel where
  | low | medium | high | critical
  deriving DecidableEq, Repr

def RiskLevel.name : RiskLevel → String
  | .low => "low"
  | .medium => "medium"
  | .high => "high"
  | .critical => "critical"

structure RemotePlan extends AgentPlan where
  riskLevel : RiskLevel
  deriving DecidableEq, Repr

/-- What a plan asks for: the files, the resources and the risk level. -/
structure PlanRequest where
  expectedFiles : List String
  expectedSymbols : List String
  expectedApis : Option (List String)
  expectedSchemas : Option (List String)
  expectedConfigKeys : Option (List String)
  expectedTests : Option (List String)
  expectedServices : Option (List String)
  riskLevel : RiskLevel
  deriving DecidableEq, Repr

def RemotePlan.request (plan : RemotePlan) : PlanRequest where
  expectedFiles := plan.expectedFiles
  expectedSymbols := plan.expectedSymbols
  expectedApis := plan.expectedApis
  expectedSchemas := plan.expectedSchemas
  expectedConfigKeys := plan.expectedConfigKeys
  expectedTests := plan.expectedTests
  expectedServices := plan.expectedServices
  riskLevel := plan.riskLevel

structure RemoteAdmission extends PlanAdmission where
  requeue : Option Bool := none
  /-- A human is being asked about this plan before it may execute. -/
  awaitingApproval : Option Bool := none
  /-- The durable approval request behind `awaitingApproval`. -/
  approvalId : Option Nat := none
  /-- Run this admission is recorded against. -/
  runId : Option Nat := none
  deriving DecidableEq, Repr

def RemoteAdmission.approved (admission : RemoteAdmission) : Bool :=
  planAdmissionApproved admission.toPlanAdmission

end AgenticGit.Shared
