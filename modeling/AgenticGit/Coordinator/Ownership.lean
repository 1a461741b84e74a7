import AgenticGit.Lib.OrderedMap
import AgenticGit.Coordinator.Ranges

/- The ownership service, function by function: `ownership-service.ts`.

   Correspondence (TypeScript ↔ Lean):
     `OwnershipPolicy`, `DefaultOwnershipPolicy` ↔ `OwnershipPolicy`, `defaultOwnershipPolicy`
     `leases: Map<string, ResourceLease[]>`      ↔ `OrderedMap String (List ResourceLease)`
     `this.now().getTime()`                      ↔ the argument `now`, in milliseconds
     `createId("lease")`                         ↔ the argument `createId`, by position
     a method that throws after it has expired leases ↔ the outcome and the service
       it leaves

   A policy hands a plan's file claims on and never makes up lines of its own;
   that is a field of `OwnershipPolicy`. -/
namespace AgenticGit.Coordinator
open AgenticGit.Runtime AgenticGit.Shared

/-! ## Policies -/

structure PlannedResource where
  type : ResourceType
  id : String
  mode : OwnershipMode
  /-- The lines of the resource this claim covers; absent means all of it. -/
  ranges : Option (List LineRange) := none
  deriving DecidableEq, Repr

/-- A plan's claim on one file; absent ranges mean the whole file. -/
structure PlanFileClaim where
  file : String
  ranges : Option (List LineRange) := none
  deriving DecidableEq, Repr

structure PlanScopeContext where
  fileClaims : Option (List PlanFileClaim) := none
  deriving DecidableEq, Repr

/-- Which lines a claim covers is not the policy's call: it is handed the
answer. -/
structure OwnershipPolicy where
  resourcesForPlan : AgentPlan → PlanScopeContext → List PlannedResource
  ranges_given : ∀ {plan context resource ranges}, resource ∈ resourcesForPlan plan context →
    resource.ranges = some ranges → ∃ claims, context.fileClaims = some claims ∧
      ∃ claim ∈ claims, claim.ranges = some ranges

/-- `/\.(?:md|mdx|txt)$/iu.test(id)`. -/
def isDocumentation (id : String) : Bool :=
  [".md", ".mdx", ".txt"].any fun suffix =>
    suffix.toList.reverse.isPrefixOf (id.toList.map Char.toLower).reverse

/-- Documentation and text files are edited alongside each other safely. -/
def fileMode (id : String) : OwnershipMode := if isDocumentation id then .shared else .exclusive

section

variable [TextRuntime]

/-- The files a plan claims, those only a file claim names last and sorted. -/
def plannedFiles (plan : CompleteAgentPlan) (claims : OrderedMap String PlanFileClaim) :
    List PlannedResource :=
  (plan.expectedFiles ++
    sortStrings (claims.keys.filter fun file => file ∉ plan.expectedFiles)).map fun id =>
      { type := .file, id, mode := fileMode id,
        ranges := (claims.get? id).bind PlanFileClaim.ranges }

/-- A symbol the agent named is reserved; one enrichment added is only noted. -/
def plannedSymbols (plan : AgentPlan) : List PlannedResource :=
  let own := plan.ownSymbols.map toLowerCase
  (completeAgentPlan plan).expectedSymbols.map fun id =>
    { type := .symbol, id, mode := if toLowerCase id ∈ own then .exclusive else .observe }

def planned (type : ResourceType) (mode : OwnershipMode) (ids : List String) :
    List PlannedResource :=
  ids.map fun id => { type, id, mode }

def defaultResourcesForPlan (plan : AgentPlan) (context : PlanScopeContext) :
    List PlannedResource :=
  let complete := completeAgentPlan plan
  let claims := OrderedMap.ofList ((context.fileClaims.getD []).map fun claim => (claim.file, claim))
  uniqueBy (fun resource => (resource.type, resource.id, resource.mode))
    (plannedFiles complete claims ++ plannedSymbols plan ++
      planned .api .intent complete.expectedApis ++
      planned .schema .approvalRequired complete.expectedSchemas ++
      planned .configuration .intent complete.expectedConfigKeys ++
      planned .test .shared complete.expectedTests ++
      planned .service .intent complete.expectedServices)

theorem defaultResourcesForPlan_ranges {plan : AgentPlan} {context : PlanScopeContext}
    {resource : PlannedResource} {ranges : List LineRange}
    (h : resource ∈ defaultResourcesForPlan plan context) (hr : resource.ranges = some ranges) :
    ∃ claims, context.fileClaims = some claims ∧
      ∃ claim ∈ claims, claim.ranges = some ranges := by
  have bare {type : ResourceType} {mode : OwnershipMode} {ids : List String}
      (h : resource ∈ planned type mode ids) : False := by
    obtain ⟨id, -, rfl⟩ := List.mem_map.mp h
    cases hr
  have hm := mem_of_uniqueBy h
  simp only [List.mem_append] at hm
  rcases hm with (((((h | h) | h) | h) | h) | h) | h
  · obtain ⟨id, -, rfl⟩ := List.mem_map.mp h
    obtain ⟨claim, hc, hr⟩ := Option.bind_eq_some_iff.mp hr
    obtain ⟨claim', hm, he⟩ := List.mem_map.mp (OrderedMap.mem_of_get?_ofList hc)
    obtain ⟨-, rfl⟩ := Prod.mk.inj he
    cases hf : context.fileClaims with
    | none => rw [hf] at hm; cases hm
    | some claims => exact ⟨claims, rfl, claim', by rwa [hf] at hm, hr⟩
  · obtain ⟨id, -, rfl⟩ := List.mem_map.mp h
    cases hr
  all_goals exact (bare h).elim

def defaultOwnershipPolicy : OwnershipPolicy := ⟨defaultResourcesForPlan,
  defaultResourcesForPlan_ranges⟩

end

/-! ## Conflicts -/

def compatible (first second : OwnershipMode) : Bool :=
  first = .observe || second = .observe || (first = .intent && second = .intent) ||
    (first = .shared && second = .shared)

/-- Whether a live lease stands in the way of a new claim on the same resource. -/
def blocks (existing : ResourceLease) (claim : PlannedResource) : Bool :=
  if compatible existing.mode claim.mode then false
  else
    match existing.ranges, claim.ranges with
    | some held, some wanted => rangesIntersect held wanted
    | _, _ => true

inductive OwnershipError where
  | conflict (resourceId : String) (blockingLease : ResourceLease)
  | approvalRequired (resourceType : ResourceType) (resourceId : String)
  deriving DecidableEq, Repr

/-- The text of the error; `toISOString` writes the instant a lease expires. -/
def OwnershipError.message (toISOString : Int → String) : OwnershipError → String
  | .conflict resourceId lease =>
    lease.resourceType.name ++ ":" ++ resourceId ++ " is owned by task " ++ lease.taskId ++
      " in " ++ lease.mode.name ++ " mode until " ++ toISOString lease.expiresAt
  | .approvalRequired resourceType resourceId =>
    "Human approval is required for " ++ resourceType.name ++ ":" ++ resourceId

/-! ## OwnershipService -/

structure OwnershipService where
  defaultTtlMs : Int
  ttl_safe : IsSafeInteger defaultTtlMs
  ttl_min : 1000 ≤ defaultTtlMs
  policy : OwnershipPolicy
  leases : OrderedMap String (List ResourceLease)

theorem defaultTtl_safe : IsSafeInteger 300000 := by decide

theorem defaultTtl_min : (1000 : Int) ≤ 300000 := by decide

structure AcquireOwnershipOptions where
  fileClaims : Option (List PlanFileClaim) := none
  /-- Resource keys approved by a human. -/
  approvedResources : Option (List String) := none

namespace OwnershipService

def key (type : ResourceType) (id : String) : String := type.name ++ "\x00" ++ id

def leasesAt (leases : OrderedMap String (List ResourceLease)) (key : String) :
    List ResourceLease :=
  (leases.get? key).getD []

/-- `retained.length === 0 ? delete(key) : set(key, retained)`. -/
def unlessEmpty (retained : List ResourceLease) : Option (List ResourceLease) :=
  if retained.length = 0 then none else some retained

def expireLeases (self : OwnershipService) (now : Int) : OwnershipService :=
  { self with
    leases := self.leases.filterMapValues fun _ leases =>
      unlessEmpty (leases.filter fun lease => now < lease.expiresAt) }

/-- The loop of `acquire` over the planned resources: those to lease, or the
first refusal. -/
def pendingResources (leases : OrderedMap String (List ResourceLease)) (taskId : String)
    (approved : List String) : List PlannedResource → Except OwnershipError (List PlannedResource)
  | [] => .ok []
  | resource :: resources =>
    let key := key resource.type resource.id
    let existing := leasesAt leases key
    if existing.any fun lease => lease.taskId = taskId then
      pendingResources leases taskId approved resources
    else if resource.mode = .approvalRequired ∧ key ∉ approved then
      .error (.approvalRequired resource.type resource.id)
    else
      match existing.find? fun lease => lease.taskId ≠ taskId && blocks lease resource with
      | some blocker => .error (.conflict resource.id blocker)
      | none => do return resource :: (← pendingResources leases taskId approved resources)

/-- The lease `acquire` makes for one pending resource. -/
def leaseFor (plan : AgentPlan) (principalId : String) (baseVersion expiresAt : Int)
    (leaseId : String) (resource : PlannedResource) : ResourceLease where
  leaseId
  resourceType := resource.type
  resourceId := resource.id
  principalId
  taskId := plan.taskId
  mode := resource.mode
  baseVersion
  expiresAt
  ranges := resource.ranges.map normalizeRanges

def leaseKey (lease : ResourceLease) : String := key lease.resourceType lease.resourceId

def addLease (leases : OrderedMap String (List ResourceLease)) (lease : ResourceLease) :
    OrderedMap String (List ResourceLease) :=
  leases.set (leaseKey lease) (leasesAt leases (leaseKey lease) ++ [lease])

def acquire (self : OwnershipService) (now : Int) (createId : Nat → String) (plan : AgentPlan)
    (principalId : String) (baseVersion : Int) (options : AcquireOwnershipOptions) :
    Except OwnershipError (List ResourceLease) × OwnershipService :=
  let self := self.expireLeases now
  let resources := self.policy.resourcesForPlan plan { fileClaims := options.fileClaims }
  match pendingResources self.leases plan.taskId (options.approvedResources.getD []) resources with
  | .error e => (.error e, self)
  | .ok pending =>
    let expiresAt := now + self.defaultTtlMs
    let acquired := pending.mapIdx fun index resource =>
      leaseFor plan principalId baseVersion expiresAt (createId index) resource
    (.ok acquired, { self with leases := acquired.foldl addLease self.leases })

/-- The loop `releaseResources` and `releaseTask` share: what a task holds under
the wanted keys is let go. -/
def release (self : OwnershipService) (taskId : String) (wanted : String → Bool) :
    List ResourceLease × OwnershipService :=
  let released := self.leases.entries.flatMap fun entry =>
    if wanted entry.1 then entry.2.filter fun lease => lease.taskId = taskId else []
  (released, { self with
    leases := self.leases.filterMapValues fun key leases =>
      if wanted key then unlessEmpty (leases.filter fun lease => lease.taskId ≠ taskId)
      else some leases })

def releaseResources (self : OwnershipService) (taskId : String)
    (resources : List PlanResourceRef) : List ResourceLease × OwnershipService :=
  let wanted := resources.map fun resource => key resource.resourceType resource.resourceId
  self.release taskId fun key => key ∈ wanted

def releaseTask (self : OwnershipService) (taskId : String) :
    List ResourceLease × OwnershipService :=
  self.release taskId fun _ => true

def activeLeases (self : OwnershipService) (now : Int) : List ResourceLease × OwnershipService :=
  let self := self.expireLeases now
  (self.leases.values.flatten, self)

def renewActive (self : OwnershipService) (now : Int) : List ResourceLease × OwnershipService :=
  let self := self.expireLeases now
  let expiresAt := now + self.defaultTtlMs
  let leases := self.leases.filterMapValues fun _ leases =>
    some (leases.map fun lease => { lease with expiresAt })
  (leases.values.flatten, { self with leases })

def blockersFor (self : OwnershipService) (now : Int) (plan : AgentPlan)
    (context : PlanScopeContext) : List ResourceLease × OwnershipService :=
  let self := self.expireLeases now
  let blockers := (self.policy.resourcesForPlan plan context).flatMap fun resource =>
    (leasesAt self.leases (key resource.type resource.id)).filter fun lease =>
      lease.taskId ≠ plan.taskId && blocks lease resource
  (blockers, self)

end OwnershipService

end AgenticGit.Coordinator
