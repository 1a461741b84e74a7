import Mathlib.Data.List.ReduceOption
import Mathlib.Logic.Function.Basic
import AgenticGit.Coordinator.Waves
import AgenticGit.Coordinator.HeldContract
import AgenticGit.Cli.ScopeWidening

/- The contracts on concurrent leases: the callers of `saveWorkLeasePlan` in
   `worker-operations.ts` and `lease-admission.ts`, in any number of processes, each
   taken apart into its read of the lease table, its decision and its save.

   Correspondence (TypeScript ↔ Lean):
     the rows of `work_leases`               ↔ `State.leases`
     what a caller holds between its read and its save ↔ `Caller`
     `executingPlans`, the leases `narrowBlanketHolder` lists ↔ `Caller.seen`
     one call of the store                   ↔ one event
     a caller that starts over, or is gone   ↔ `Event.left`
   An admission that is forced through is no event here.

   What is proved:
     1. `decide_proposed` — what a caller comes to save was decided against all the
        contracts it read.
     2. `saved_settles` — a save that is written had read every other contract as it is
        stored, while nothing a caller relies on is replaced under it.
     3. `contracts_arbitrated` — **in an orderly run the later of two approved contracts
        was decided against the other, as it is stored.**
     4. `contracts_collide` — two widenings that overlap each other are both saved. -/
namespace AgenticGit.Cli.ConcurrentContracts
open AgenticGit.Runtime AgenticGit.Runs AgenticGit.Shared AgenticGit.Persistence
  AgenticGit.Coordinator AgenticGit.CodeIntelligence AgenticGit.Cli.ScopeWidening

/-! ## Deciding -/

/-- How the executing plans are put to the admission controller. -/
inductive Presented where
  /-- `admitWorkPlan`, `arbitrateScopeChange`: a plan that was never verified is. -/
  | verified (ground : Grounding) (index : RepositoryIndex)
  /-- `LeasePlanAuthority.admit`: what each comes to on this branch, if anything. -/
  | onBranch (narrow : String → AgentPlan → Option AgentPlan)
  /-- `declareBlanketClaim`. -/
  | asStored

/-- What an arbitration depends on besides the leases. -/
structure Arbitration where
  controller : PlanAdmissionController
  presented : Presented
  agentFor : String → String
  /-- Everything but the executing plans. -/
  input : PlanAdmissionInput
  riskLevel : RiskLevel
  runId : Option Nat := none
  /-- A holder's declared plan is decided and stored whole. -/
  whole : Bool := false
  replaceApproved : Option Bool := none

inductive Decision where
  /-- Nobody may execute on the answer: a refusal, or a plan that waits for a reviewer. -/
  | withheld (submission : WorkLeasePlan)
  /-- There is nothing to decide against: `admitSolo`, `publish`, `claimRepository`. -/
  | alone (presented : Presented) (agentFor : String → String) (submission : WorkLeasePlan)
    (replaceApproved : Option Bool)
  | arbitration (arbitration : Arbitration)
  /-- `arbitrateScopeChange`. -/
  | widening (controller : PlanAdmissionController) (task : LeasedTask)
    (request : ScopeChangeRequest) (baseSequence : Int) (answers : ScopeAnswers)
  /-- `freezeBlanketClaim`: what was handed back, what the claim is narrowed to, and the
  admission of that. -/
  | freezing (givenBack narrowTo : List String) (admission : RemoteAdmission)
  /-- `narrowBlanketHolder`: the files released to the arrival, what the holder was seen
  in, and the admission of what it keeps. -/
  | narrowing (released observed : List String) (admission : RemoteAdmission)

/-- A caller between its read and its save. -/
structure Caller where
  /-- The lease it is about, as it read it. -/
  lease : WorkLease
  /-- The leases as it listed them. -/
  seen : List WorkLease
  /-- The repository-wide claim it narrows, as it knows it. -/
  claim : Option WorkLeasePlan := none
  /-- The arrival it narrows the claim for, when the holder does not do so itself. -/
  arrival : Option Nat := none
  /-- What it decided, and what it is going to store. -/
  proposal : Option (Decision × SaveWorkLeasePlanInput) := none

def Caller.rows (caller : Caller) : List WorkLease := admittedBeside caller.seen caller.lease

section

variable [TextRuntime]

/-- What a plan that executes is put to the controller as. -/
def Presented.sees : Presented → String → AgentPlan → Option (Option AgentPlan)
  | .verified ground index, taskId, plan =>
    ((verifyActive ground index ⟨taskId, "", plan⟩).toOption).map fun entry => some entry.plan
  | .onBranch narrow, taskId, plan => some (narrow taskId plan)
  | .asStored, _, plan => some (some plan)

/-- Behind a repository-wide claim `LeasePlanAuthority.admit` has nothing to decide. -/
def Presented.stops : Presented → List ActivePlan → Bool
  | .onBranch _, executing => executing.any fun entry => isBlanketClaim entry.plan
  | _, _ => false

def Presented.active (presented : Presented) (executing : List ActivePlan) :
    Option (List ActivePlan) :=
  if presented.stops executing then none
  else do
    let seen ← executing.mapM fun entry =>
      (presented.sees entry.taskId entry.plan).map fun plan =>
        plan.map fun plan => ({ entry with plan } : ActivePlan)
    return seen.reduceOption

def Arbitration.put (arbitration : Arbitration) (caller : Caller) : Option PlanAdmissionInput := do
  let executing := (executingPlans caller.seen caller.lease arbitration.agentFor).1
  let active ← arbitration.presented.active executing
  return { arbitration.input with
    active
    partialAdmission :=
      if arbitration.whole then some false else arbitration.input.partialAdmission }

def Caller.propose (caller : Caller) (submission : WorkLeasePlan)
    (replaceApproved : Option Bool) : SaveWorkLeasePlanInput where
  leaseId := caller.lease.id
  submission
  observedApprovedLeaseIds := sortStrings (caller.rows.map WorkLease.id)
  replaceApproved

def stillHeld (files givenBack : List String) : Option (List String) :=
  if givenBack = [] then some files
  else ((uniqueRepositoryPaths files).toOption).map fun files => files.filter (· ∉ givenBack)

/-- What is stored of a claim that is narrowed to a plan and changes besides. -/
def freeze (caller : Caller) (claim : WorkLeasePlan) (kept : AgentPlan) (changes : List String)
    (admission : RemoteAdmission) : Option SaveWorkLeasePlanInput := do
  let frozen ← (HeldContract.freezePlanFromWorkingChanges kept changes).toOption
  return caller.propose ⟨{ frozen with riskLevel := claim.plan.riskLevel }, admission⟩ (some true)

variable [Printer] [Lemmatizer]

def Arbitration.granted (arbitration : Arbitration) (input : PlanAdmissionInput)
    (admission : PlanAdmission) : Option AgentPlan :=
  if planAdmissionApproved admission then
    if arbitration.whole then some input.plan else (grantedPlan input.plan admission).toOption
  else none

/-- An approved answer of the controller, as it is stored. -/
def Arbitration.decide (arbitration : Arbitration) (input : PlanAdmissionInput) :
    Option WorkLeasePlan := do
  let admission ← (arbitration.controller.admitPlan input).toOption
  let plan ← arbitration.granted input admission
  return {
    plan := { plan with riskLevel := arbitration.riskLevel }
    admission := { admission with runId := arbitration.runId } }

def Caller.decide (caller : Caller) : Decision → Option SaveWorkLeasePlanInput
  | .withheld submission =>
    if submission.admission.approved then none else some (caller.propose submission none)
  | .alone presented agentFor submission replaceApproved => do
    let active ← presented.active (executingPlans caller.seen caller.lease agentFor).1
    if active.length = 0 ∧ submission.plan.taskId = caller.lease.taskId then
      some (caller.propose submission replaceApproved)
    else none
  | .arbitration arbitration => do
    let input ← arbitration.put caller
    if input.plan.taskId = caller.lease.taskId then
      return caller.propose (← arbitration.decide input) arbitration.replaceApproved
    else none
  | .widening controller task request baseSequence answers => do
    let admitted ← caller.lease.plan.filter fun plan => plan.admission.approved
    let widening ← (proposeWidening controller caller.seen caller.lease task admitted request
      baseSequence answers).toOption
    return widening.input caller.seen caller.lease admitted answers.agentFor
  | .freezing givenBack narrowTo admission => do
    let claim ← caller.claim
    let files ← stillHeld claim.plan.expectedFiles givenBack
    freeze caller claim { claim.plan.toAgentPlan with expectedFiles := files } narrowTo admission
  | .narrowing released observed admission => do
    let claim ← caller.claim
    let files ← (claim.plan.expectedFiles.filterM fun file => do
      return (← normalizeRepositoryPath file) ∉ released).toOption
    if planAdmissionApproved admission.toPlanAdmission then
      freeze caller claim { claim.plan.toAgentPlan with expectedFiles := files } (files ++ observed)
        admission
    else none

end

/-! ## The lease table and its callers -/

structure Save where
  caller : Caller
  decision : Decision
  stored : WorkLeasePlan

structure State where
  leases : List WorkLease
  callers : Nat → Option Caller := fun _ => none
  /-- The last save first. -/
  saves : List Save := []

inductive Event where
  /-- A task that is under no active lease is leased. -/
  | issued (lease : WorkLease)
  | finished (leaseId : String) (status : WorkLeaseStatus) (finishedAt : Int)
  | expired (now : Int)
  | read (caller : Nat) (leaseId : String)
  /-- A holder looks at its own claim. -/
  | readClaim (caller : Nat) (leaseId : String)
  /-- An arrival looks for the holder of the claim it found on a task. -/
  | readHolder (caller arrival : Nat) (taskId : String)
  | decided (caller : Nat) (decision : Decision)
  | saved (caller : Nat)
  /-- A caller starts over, or is gone. -/
  | left (caller : Nat)

def Claims (plan : WorkLeasePlan) : Bool :=
  plan.admission.approved && isBlanketClaim plan.plan.toAgentPlan

def State.withCaller (s : State) (n : Nat) (caller : Caller) : State :=
  { s with callers := Function.update s.callers n (some caller) }

/-- What an arrival knows of the claim that was narrowed for it, if it has not decided. -/
def Caller.told (caller : Caller) (leaseId : String) (submission : WorkLeasePlan) : Caller :=
  if caller.proposal.isNone then { caller with seen := setPlan caller.seen leaseId submission }
  else caller

section

variable [TextRuntime] [Printer] [Lemmatizer]

def saved (s : State) (n : Nat) (caller : Caller) (decision : Decision)
    (input : SaveWorkLeasePlanInput) : State :=
  match saveWorkLeasePlan s.leases input with
  | (leases, .saved _) =>
    let callers := Function.update s.callers n none
    { leases
      callers :=
        match caller.arrival with
        | none => callers
        | some arrival => Function.update callers arrival
            ((callers arrival).map fun caller => caller.told input.leaseId input.submission)
      saves := ⟨caller, decision, input.submission⟩ :: s.saves }
  | (leases, _) => { s with leases, callers := Function.update s.callers n none }

def step (s : State) : Event → Option State
  | .issued lease =>
    if lease.plan = none ∧ lease.id ∉ s.leases.map WorkLease.id ∧
        s.leases.all (fun other =>
          decide (other.status = .active → other.taskId ≠ lease.taskId)) then
      some { s with leases := s.leases ++ [lease] }
    else none
  | .finished leaseId status finishedAt =>
    some { s with leases := finishWorkLease s.leases leaseId status finishedAt }
  | .expired now => some { s with leases := expireWorkLeases s.leases now }
  | .read n leaseId => do
    let lease ← s.leases.find? fun lease => lease.id = leaseId && lease.status = .active
    if (s.callers n).isSome then none
    else return s.withCaller n { lease, seen := s.leases }
  | .readClaim n leaseId => do
    let lease ← s.leases.find? fun lease => lease.id = leaseId && lease.status = .active
    let claim ← lease.plan.filter Claims
    if (s.callers n).isSome then none
    else return s.withCaller n { lease, seen := s.leases, claim := some claim }
  | .readHolder n arrival taskId => do
    let caller ← s.callers arrival
    let row ← caller.rows.find? fun row => row.taskId = taskId
    let claim ← row.plan.filter Claims
    let lease ← s.leases.find? fun lease => lease.taskId = taskId && lease.status = .active
    if (s.callers n).isSome ∨ lease.plan = none then none
    else
      return s.withCaller n
        { lease, seen := s.leases, claim := some claim, arrival := some arrival }
  | .decided n decision => do
    let caller ← s.callers n
    let input ← caller.decide decision
    if caller.proposal.isSome then none
    else return s.withCaller n { caller with proposal := some (decision, input) }
  | .saved n => do
    let caller ← s.callers n
    let (decision, input) ← caller.proposal
    return saved s n caller decision input
  | .left n => some { s with callers := Function.update s.callers n none }

end

/-! ## Orderly runs -/

/-- The plan that a decision puts to the controller, or stores without asking it. -/
def Decision.plan [TextRuntime] (caller : Caller) : Decision → Option AgentPlan
  | .alone _ _ submission _ => some submission.plan.toAgentPlan
  | .arbitration asked => some asked.input.plan
  | .widening _ _ request _ answers => do
    let admitted ← caller.lease.plan
    return (← (revisePlan admitted.plan request answers).toOption).toAgentPlan
  | _ => none

/-- What a decision that stores a plan whole puts to the controller. -/
def Decision.putWhole [TextRuntime] (caller : Caller) : Decision → Option PlanAdmissionInput
  | .arbitration asked => if asked.whole then asked.put caller else none
  | .widening _ task request baseSequence answers => do
    let admitted ← caller.lease.plan
    let revised ← (revisePlan admitted.plan request answers).toOption
    (wideningInput caller.seen caller.lease task baseSequence revised answers).toOption
  | _ => none

def Caller.Reads (caller : Caller) (leaseId : String) : Prop :=
  leaseId ∈ caller.rows.map WorkLease.id ∨ (caller.claim ≠ none ∧ caller.lease.id = leaseId)

section

variable [TextRuntime] [Printer]

/-- A decision that no claim stands in the way of, on a plan that claims the repository
only where nobody else has a contract. -/
structure Plain (caller : Caller) (decision : Decision) : Prop where
  blanket : ∀ plan, decision.plan caller = some plan → isBlanketClaim plan = true →
    caller.rows = []
  claimed : ∀ input, decision.putWhole caller = some input →
    PlanAdmissionController.claimBlocked input = .ok none

/-- A step that is taken in order: no approved contract is replaced that another caller
relies on, except that an arrival is told of the claim that was narrowed for it; the
claim that is narrowed for an arrival is the one it found; and decisions are plain. -/
def Orderly (s : State) : Event → Prop
  | .readHolder _ arrival taskId => ∀ caller, s.callers arrival = some caller →
    ∀ row ∈ caller.rows, row.taskId = taskId →
      ∀ lease ∈ s.leases, lease.taskId = taskId → lease.status = .active → lease.id = row.id
  | .decided n decision => ∀ caller, s.callers n = some caller → Plain caller decision
  | .saved n => ∀ caller decision input, s.callers n = some caller →
    caller.proposal = some (decision, input) → input.replaceApproved = some true →
    (∃ lease ∈ s.leases, lease.id = input.leaseId ∧ lease.admitted = true) →
    ∀ m other, m ≠ n → s.callers m = some other →
      ¬other.Reads input.leaseId ∨
        (caller.arrival = some m ∧ other.proposal = none ∧ other.claim = none)
  | _ => True

end

/-! ## What a decision was made against -/

section

variable [TextRuntime] [Printer]

/-- How a decision was put the plans that execute, and what compared them. -/
def Decision.presented : Decision → Presented
  | .alone presented _ _ _ => presented
  | .arbitration asked => asked.presented
  | .widening _ _ _ _ answers => .verified answers.ground answers.index
  | _ => .asStored

def Decision.detector : Decision → Option ConflictDetector
  | .arbitration asked => some asked.controller.conflicts
  | .widening controller _ _ _ _ => some controller.conflicts
  | _ => none

/-- Arbitration found nothing structural between two plans. -/
def Unopposed (detector : ConflictDetector) (plan other : AgentPlan) : Prop :=
  ∃ occupancy intentAssessment assessment,
    detector.assess plan other (some occupancy) intentAssessment = .ok assessment ∧
      Clear assessment

/-- The decision that a plan be stored was made against a contract: what the contract's
plan was put as, if it was put at all, does not oppose it. -/
def Against (decision : Decision) (plan : AgentPlan) (other : WorkLease) : Prop :=
  ∀ stored, other.plan = some stored → ∀ put,
    decision.presented.sees other.taskId stored.plan.toAgentPlan = some (some put) →
    ∃ detector, decision.detector = some detector ∧ Unopposed detector plan put

variable [Lemmatizer]

variable {input : PlanAdmissionInput} {admission : PlanAdmission} {entry : ActivePlan}

theorem granted_unopposed {controller : PlanAdmissionController} {granted : AgentPlan}
    (h : controller.admitPlan input = .ok admission) (ha : planAdmissionApproved admission = true)
    (hg : grantedPlan input.plan admission = .ok granted) (he : entry ∈ input.active)
    (hother : entry.taskId ≠ input.plan.taskId) :
    Unopposed controller.conflicts granted entry.plan := by
  rcases admit_approved h ha with ⟨-, hdecided⟩ | ⟨shared, deferred, -, hdivided⟩
  · have hclear := decide_approved hdecided ha
    obtain rfl := grantedPlan_whole hclear.whole hg
    obtain ⟨assessment, hassess, hnone⟩ := hclear.clear entry
      (List.mem_filter.mpr ⟨he, decide_eq_true hother⟩)
    exact ⟨_, _, assessment, hassess, hnone⟩
  · obtain ⟨answer, hreduced, hdecided, happroved, -⟩ := grantedPlan_divided hdivided hg
    have hclear := decide_approved hdecided happroved
    have htask := reducePlanScope_taskId hreduced
    obtain ⟨assessment, hassess, hnone⟩ := hclear.clear entry
      (List.mem_filter.mpr ⟨he, decide_eq_true (htask ▸ hother)⟩)
    exact ⟨_, _, assessment, hassess, hnone⟩

theorem whole_unopposed {controller : PlanAdmissionController}
    (hwhole : input.partialAdmission = some false)
    (hfree : PlanAdmissionController.claimBlocked input = .ok none)
    (h : controller.admitPlan input = .ok admission) (ha : planAdmissionApproved admission = true)
    (he : entry ∈ input.active) (hother : entry.taskId ≠ input.plan.taskId) :
    Unopposed controller.conflicts input.plan entry.plan := by
  refine granted_unopposed h ha ?_ he hother
  have hnone : admission.deferred = [] := by
    refine List.eq_nil_iff_forall_not_mem.mpr fun resource hin => ?_
    obtain ⟨claimed, -, hclaimed, -⟩ :=
      (admitPlan_listed hwhole h ha).mp (List.mem_map_of_mem hin)
    rw [hfree] at hclaimed
    cases hclaimed
  unfold grantedPlan planAdmissionPartial
  rw [hnone]
  simp

end

/-! ## What is put to the controller -/

section

variable [TextRuntime]

variable {ground : Grounding} {index : RepositoryIndex} {presented : Presented}
  {executing active : List ActivePlan} {entry : ActivePlan}

theorem verifyActive_ok {entry put : ActivePlan} (h : verifyActive ground index entry = .ok put) :
    put.taskId = entry.taskId ∧ isBlanketClaim put.plan = isBlanketClaim entry.plan := by
  unfold verifyActive at h
  split at h
  · obtain ⟨plan, hverified, h⟩ := except_bind_ok h
    obtain rfl := Except.ok.inj h
    unfold verifyPlan groundPlan enrichPlan at hverified
    obtain ⟨grounded, hgrounded, hverified⟩ := except_bind_ok hverified
    obtain ⟨grounding, -, hgrounded⟩ := except_bind_ok hgrounded
    obtain ⟨files, -, hverified⟩ := except_bind_ok hverified
    obtain rfl := Except.ok.inj hverified
    obtain rfl := Except.ok.inj hgrounded
    exact ⟨rfl, rfl⟩
  · obtain rfl := Except.ok.inj h
    exact ⟨rfl, rfl⟩

theorem sees_verified {entry put : ActivePlan} (h : verifyActive ground index entry = .ok put) :
    (Presented.verified ground index).sees entry.taskId entry.plan = some (some put.plan) := by
  show ((verifyActive ground index ⟨entry.taskId, "", entry.plan⟩).toOption).map _ = _
  unfold verifyActive at h ⊢
  dsimp only
  split at h
  · rename_i hnone
    obtain ⟨plan, hverified, h⟩ := except_bind_ok h
    obtain rfl := Except.ok.inj h
    rw [if_pos hnone, hverified]
    rfl
  · rename_i hnone
    obtain rfl := Except.ok.inj h
    rw [if_neg hnone]
    rfl

omit [TextRuntime] in
theorem toOption_some {ε α : Type} {x : Except ε α} {a : α} (h : x.toOption = some a) :
    x = .ok a := by
  cases x with
  | error e => cases h
  | ok b => exact congrArg Except.ok (Option.some.inj h)

theorem mem_active (h : presented.active executing = some active) (he : entry ∈ executing) :
    ∃ seen, presented.sees entry.taskId entry.plan = some seen ∧
      ∀ plan, seen = some plan → { entry with plan } ∈ active := by
  unfold Presented.active at h
  split at h
  · cases h
  · obtain ⟨seen, hseen, h⟩ := Option.bind_eq_some_iff.mp h
    obtain rfl := Option.some.inj h
    obtain ⟨one, hone, hsees⟩ := forall₂_mem (Waves.mapM_some hseen) he
    obtain ⟨plan, hplan, rfl⟩ := Option.map_eq_some_iff.mp hsees
    refine ⟨plan, hplan, ?_⟩
    rintro plan rfl
    exact List.reduceOption_mem_iff.mpr hone

theorem blanket_active (h : presented.active executing = some active) (he : entry ∈ executing)
    (hb : isBlanketClaim entry.plan = true) :
    ∃ put ∈ active, put.taskId = entry.taskId ∧ isBlanketClaim put.plan = true := by
  obtain ⟨seen, hseen, hput⟩ := mem_active h he
  cases presented with
  | verified ground index =>
    obtain ⟨put, hput', hsome⟩ := Option.map_eq_some_iff.mp hseen
    obtain ⟨htask, hblanket⟩ := verifyActive_ok (toOption_some hput')
    exact ⟨_, hput _ hsome.symm, rfl, hblanket.trans hb⟩
  | onBranch narrow =>
    have hstops : (Presented.onBranch narrow).stops executing = true :=
      List.any_eq_true.mpr ⟨entry, he, hb⟩
    unfold Presented.active at h
    rw [if_pos hstops] at h
    cases h
  | asStored => exact ⟨_, hput _ (Option.some.inj hseen).symm, rfl, hb⟩

end

/-! ## What a caller comes to save -/

def Decision.narrows : Decision → Bool
  | .freezing _ _ _ => true
  | .narrowing _ _ _ => true
  | _ => false

section

variable [TextRuntime] [Printer]

/-- What is known of a save that was decided. An approved plan is on the lease's task; it
claims the repository only where there is no other contract; and unless it narrows a
claim, no other contract claims the repository, and it was decided against them all. -/
structure Proposed (caller : Caller) (decision : Decision) (input : SaveWorkLeasePlanInput) :
    Prop where
  lease : input.leaseId = caller.lease.id
  observed : input.observedApprovedLeaseIds = sortStrings (caller.rows.map WorkLease.id)
  titled : input.submission.admission.approved = true →
    input.submission.plan.taskId = caller.lease.taskId
  alone : input.submission.admission.approved = true →
    isBlanketClaim input.submission.plan.toAgentPlan = true → caller.rows = []
  narrows : decision.narrows = true → caller.claim ≠ none
  clear : decision.narrows = false → input.submission.admission.approved = true →
    ∀ row ∈ caller.rows, ∀ stored, row.plan = some stored →
      isBlanketClaim stored.plan.toAgentPlan = false
  against : decision.narrows = false → input.submission.admission.approved = true →
    ∀ row ∈ caller.rows, Against decision input.submission.plan.toAgentPlan row

omit [TextRuntime] [Printer] in
theorem mem_executing {caller : Caller} {row : WorkLease} {stored : WorkLeasePlan}
    (hrow : row ∈ caller.rows) (hstored : row.plan = some stored) (agentFor : String → String) :
    (⟨row.taskId, agentFor row.taskId, stored.plan.toAgentPlan⟩ : ActivePlan) ∈
      (executingPlans caller.seen caller.lease agentFor).1 :=
  List.mem_filterMap.mpr ⟨row, hrow, by rw [hstored]; rfl⟩

omit [TextRuntime] [Printer] in
theorem row_admitted {caller : Caller} {row : WorkLease} (h : row ∈ caller.rows) :
    row.repositoryId = caller.lease.repositoryId ∧ row.status = .active ∧
      row.id ≠ caller.lease.id ∧ ∃ stored, row.plan = some stored ∧
        stored.admission.approved = true := by
  obtain ⟨-, h⟩ := List.mem_filter.mp h
  simp only [Bool.and_eq_true, decide_eq_true_eq, WorkLease.admitted, Option.any_eq_true] at h
  exact ⟨h.1.1.1, h.1.1.2, h.1.2, h.2⟩

theorem freeze_proposed {caller : Caller} {claim : WorkLeasePlan} {kept : AgentPlan}
    {changes : List String} {admission : RemoteAdmission} {input : SaveWorkLeasePlanInput}
    {decision : Decision} (h : freeze caller claim kept changes admission = some input)
    (hclaim : caller.claim = some claim) (htask : kept.taskId = caller.lease.taskId)
    (hnarrows : decision.narrows = true) : Proposed caller decision input := by
  obtain ⟨frozen, hfrozen, h⟩ := Option.bind_eq_some_iff.mp h
  obtain rfl := Option.some.inj h
  have hfrozen := toOption_some hfrozen
  unfold HeldContract.freezePlanFromWorkingChanges at hfrozen
  obtain ⟨changed, -, hfrozen⟩ := except_bind_ok hfrozen
  obtain rfl := Except.ok.inj hfrozen
  refine ⟨rfl, rfl, fun _ => htask, ?_, fun _ => ?_, ?_, ?_⟩
  · intro _ hblanket
    cases hblanket
  · rw [hclaim]
    exact Option.some_ne_none claim
  · intro hnot
    rw [hnarrows] at hnot
    cases hnot
  · intro hnot
    rw [hnarrows] at hnot
    cases hnot

theorem alone_proposed {caller : Caller} {presented : Presented} {agentFor : String → String}
    {submission : WorkLeasePlan} {replaceApproved : Option Bool}
    (hactive : presented.active (executingPlans caller.seen caller.lease agentFor).1 = some [])
    (htask : submission.plan.taskId = caller.lease.taskId)
    (hblanket : isBlanketClaim submission.plan.toAgentPlan = true → caller.rows = []) :
    Proposed caller (.alone presented agentFor submission replaceApproved)
      (caller.propose submission replaceApproved) := by
  refine ⟨rfl, rfl, fun _ => htask, fun _ => hblanket, Bool.noConfusion, ?_, ?_⟩
  · intro _ _ row hrow stored hstored
    refine Bool.eq_false_iff.mpr fun hb => ?_
    obtain ⟨put, hput, -⟩ := blanket_active hactive (mem_executing hrow hstored agentFor) hb
    cases hput
  · intro _ _ row hrow stored hstored put hsees
    obtain ⟨seen, hseen, hput⟩ := mem_active hactive (mem_executing hrow hstored agentFor)
    have hsame : some put = seen := Option.some.inj (hsees.symm.trans hseen)
    cases hput put hsame.symm

variable [Lemmatizer]

variable {controller : PlanAdmissionController} {asked : Arbitration} {request : ScopeChangeRequest}
  {answers : ScopeAnswers}

theorem approved_unclaimed {input : PlanAdmissionInput} {admission : PlanAdmission}
    (h : controller.admitPlan input = .ok admission) (ha : planAdmissionApproved admission = true)
    {put : ActivePlan} (hput : put ∈ input.active) (htask : put.taskId ≠ input.plan.taskId) :
    isBlanketClaim put.plan = false := by
  refine Bool.eq_false_iff.mpr fun hb => ?_
  have hrefused := admit_blanket h (List.mem_filter.mpr ⟨hput, decide_eq_true htask⟩) hb
  rw [ha] at hrefused
  cases hrefused

omit [Printer] [Lemmatizer] in
theorem grantedPlan_same {plan granted : AgentPlan} {admission : PlanAdmission}
    (h : grantedPlan plan admission = .ok granted) :
    granted.taskId = plan.taskId ∧ granted.claim = plan.claim := by
  unfold grantedPlan at h
  split at h
  · unfold reducePlanScope assertAgentPlan at h
    split at h
    · split at h
      · cases h
      · obtain rfl := Except.ok.inj h
        exact ⟨rfl, rfl⟩
    · cases h
  · obtain rfl := Except.ok.inj h
    exact ⟨rfl, rfl⟩

theorem arbitration_decide {input : PlanAdmissionInput} {stored : WorkLeasePlan}
    (h : asked.decide input = some stored) :
    ∃ admission, asked.controller.admitPlan input = .ok admission ∧
      planAdmissionApproved admission = true ∧
      ((asked.whole = true ∧ stored.plan.toAgentPlan = input.plan) ∨
        (asked.whole = false ∧
          grantedPlan input.plan admission = .ok stored.plan.toAgentPlan)) := by
  obtain ⟨admission, hadmission, h⟩ := Option.bind_eq_some_iff.mp h
  obtain ⟨plan, hplan, h⟩ := Option.bind_eq_some_iff.mp h
  obtain rfl := Option.some.inj h
  refine ⟨admission, toOption_some hadmission, ?_⟩
  unfold Arbitration.granted at hplan
  split at hplan
  · rename_i happroved
    refine ⟨happroved, ?_⟩
    split at hplan
    · rename_i hwhole
      obtain rfl := Option.some.inj hplan
      exact .inl ⟨hwhole, rfl⟩
    · rename_i hwhole
      exact .inr ⟨eq_false_of_ne_true hwhole, toOption_some hplan⟩
  · cases hplan

theorem arbitration_proposed {caller : Caller} {input : PlanAdmissionInput} {stored : WorkLeasePlan}
    (hput : asked.put caller = some input) (hdecide : asked.decide input = some stored)
    (htask : input.plan.taskId = caller.lease.taskId) (hplain : Plain caller (.arbitration asked))
    (hapart : ∀ row ∈ caller.rows, row.taskId ≠ caller.lease.taskId) :
    Proposed caller (.arbitration asked) (caller.propose stored asked.replaceApproved) := by
  obtain ⟨admission, hadmission, happroved, hstored⟩ := arbitration_decide hdecide
  obtain ⟨active, hactive, hinput⟩ := Option.bind_eq_some_iff.mp hput
  have hsame : stored.plan.taskId = input.plan.taskId ∧ stored.plan.claim = input.plan.claim := by
    rcases hstored with ⟨-, heq⟩ | ⟨-, hgranted⟩
    · exact ⟨congrArg AgentPlan.taskId heq, congrArg AgentPlan.claim heq⟩
    · exact grantedPlan_same hgranted
  obtain rfl := Option.some.inj hinput
  refine ⟨rfl, rfl, fun _ => hsame.1.trans htask, ?_, Bool.noConfusion, ?_, ?_⟩
  · intro _ hblanket
    refine hplain.blanket _ rfl ?_
    unfold isBlanketClaim at hblanket ⊢
    rw [← hsame.2]
    exact hblanket
  · intro _ _ row hrow contract hcontract
    refine Bool.eq_false_iff.mpr fun hb => ?_
    obtain ⟨put, hin, hputTask, hb⟩ :=
      blanket_active hactive (mem_executing hrow hcontract asked.agentFor) hb
    have hnot := approved_unclaimed hadmission happroved hin
      (hputTask ▸ (htask ▸ hapart row hrow))
    rw [hb] at hnot
    cases hnot
  · intro _ _ row hrow contract hcontract plan hsees
    obtain ⟨seen, hseen, hin⟩ := mem_active hactive (mem_executing hrow hcontract asked.agentFor)
    have hplan : some plan = seen := Option.some.inj (hsees.symm.trans hseen)
    have hentry := hin plan hplan.symm
    have hother := htask ▸ hapart row hrow
    refine ⟨_, rfl, ?_⟩
    rcases hstored with ⟨hwhole, heq⟩ | ⟨-, hgranted⟩
    · have hfree := hplain.claimed _ ((if_pos hwhole).trans hput)
      show Unopposed asked.controller.conflicts stored.plan.toAgentPlan plan
      rw [heq]
      exact whole_unopposed (if_pos hwhole) hfree hadmission happroved hentry hother
    · exact granted_unopposed hadmission happroved hgranted hentry hother

omit [Printer] [Lemmatizer] in
theorem revisePlan_same {plan revised : RemotePlan}
    (h : revisePlan plan request answers = .ok revised) :
    revised.taskId = plan.taskId ∧ revised.claim = plan.claim := by
  obtain ⟨merged, hmerged, h⟩ := except_bind_ok h
  obtain ⟨verified, hverified, h⟩ := except_bind_ok h
  obtain rfl := Except.ok.inj h
  have hsame : merged.taskId = plan.taskId ∧ merged.claim = plan.claim := by
    unfold mergePlanScope at hmerged
    split at hmerged
    · cases hmerged
    · unfold assertAgentPlan at hmerged
      split at hmerged
      · split at hmerged
        · cases hmerged
        · obtain rfl := Except.ok.inj hmerged
          exact ⟨rfl, rfl⟩
      · cases hmerged
  obtain ⟨grounded, hgrounded, hverified⟩ := except_bind_ok (ofPath_ok hverified)
  obtain ⟨grounding, -, hgrounded⟩ := except_bind_ok hgrounded
  obtain ⟨files, -, hverified⟩ := except_bind_ok hverified
  obtain rfl := Except.ok.inj hverified
  obtain rfl := Except.ok.inj hgrounded
  exact hsame

theorem widening_proposed {caller : Caller} {task : LeasedTask} {baseSequence : Int}
    {admitted : WorkLeasePlan} {widening : Widening} (hadmitted : caller.lease.plan = some admitted)
    (hwidening : proposeWidening controller caller.seen caller.lease task admitted request
      baseSequence answers = .ok widening) (htitled : admitted.plan.taskId = caller.lease.taskId)
    (hplain : Plain caller (.widening controller task request baseSequence answers))
    (hapart : ∀ row ∈ caller.rows, row.taskId ≠ caller.lease.taskId) :
    Proposed caller (.widening controller task request baseSequence answers)
      (widening.input caller.seen caller.lease admitted answers.agentFor) := by
  obtain ⟨input, hrevised, hinput, hadmission, happroved⟩ := proposeWidening_ok hwidening
  obtain ⟨htask, hclaim⟩ := revisePlan_same hrevised
  have hput : (Decision.widening controller task request baseSequence answers).putWhole caller =
      some input := by
    simp only [Decision.putWhole, hadmitted, hrevised, hinput, Except.toOption, Option.bind_eq_bind,
      Option.bind_some]
  have hplan : (Decision.widening controller task request baseSequence answers).plan caller =
      some widening.revised.toAgentPlan := by
    simp only [Decision.plan, hadmitted, hrevised, Except.toOption, Option.bind_eq_bind,
      Option.bind_some]
    rfl
  obtain ⟨active, hactive, hinput⟩ := except_bind_ok hinput
  obtain rfl := Except.ok.inj hinput
  have hown : widening.revised.taskId = caller.lease.taskId := htask.trans htitled
  refine ⟨rfl, rfl, fun _ => hown, fun _ hblanket => ?_, Bool.noConfusion, ?_, ?_⟩
  · exact hplain.blanket _ hplan hblanket
  · intro _ _ row hrow contract hcontract
    refine Bool.eq_false_iff.mpr fun hb => ?_
    obtain ⟨put, hin, hverified⟩ :=
      forall₂_mem (mapM_ok hactive) (mem_executing hrow hcontract answers.agentFor)
    obtain ⟨hputTask, hputBlanket⟩ := verifyActive_ok hverified
    have hnot := approved_unclaimed hadmission happroved hin
      (hputTask ▸ (hown ▸ hapart row hrow))
    rw [hputBlanket] at hnot
    exact Bool.noConfusion (hnot.symm.trans hb)
  · intro _ _ row hrow contract hcontract plan hsees
    obtain ⟨put, hin, hverified⟩ :=
      forall₂_mem (mapM_ok hactive) (mem_executing hrow hcontract answers.agentFor)
    have hsame : some (some put.plan) = some (some plan) :=
      (sees_verified hverified).symm.trans hsees
    obtain rfl : put.plan = plan := Option.some.inj (Option.some.inj hsame)
    refine ⟨_, rfl, ?_⟩
    have hputTask := (verifyActive_ok hverified).1
    exact whole_unopposed rfl (hplain.claimed _ hput) hadmission happroved hin
      (hputTask ▸ (hown ▸ hapart row hrow))

/-- **What a caller comes to save was decided against all the contracts it read.** -/
theorem decide_proposed {caller : Caller} {decision : Decision} {input : SaveWorkLeasePlanInput}
    (h : caller.decide decision = some input) (hplain : Plain caller decision)
    (hapart : ∀ row ∈ caller.rows, row.taskId ≠ caller.lease.taskId)
    (htitled : ∀ plan, caller.lease.plan = some plan → plan.admission.approved = true →
      plan.plan.taskId = caller.lease.taskId)
    (hclaim : ∀ claim, caller.claim = some claim → claim.plan.taskId = caller.lease.taskId) :
    Proposed caller decision input := by
  cases decision with
  | withheld submission =>
    by_cases happroved : submission.admission.approved = true
    · rw [Caller.decide, if_pos happroved] at h
      cases h
    · rw [Caller.decide, if_neg happroved] at h
      obtain rfl := Option.some.inj h
      have hnot {p : Prop} (h : submission.admission.approved = true) : p := absurd h happroved
      exact ⟨rfl, rfl, hnot, hnot, Bool.noConfusion, fun _ => hnot, fun _ => hnot⟩
  | alone presented agentFor submission replaceApproved =>
    obtain ⟨active, hactive, h⟩ := Option.bind_eq_some_iff.mp h
    split at h
    · rename_i hnone
      obtain rfl := Option.some.inj h
      obtain rfl := List.eq_nil_of_length_eq_zero hnone.1
      exact alone_proposed hactive hnone.2 (hplain.blanket _ rfl)
    · cases h
  | arbitration asked =>
    obtain ⟨input', hput, h⟩ := Option.bind_eq_some_iff.mp h
    split at h
    · rename_i htask
      obtain ⟨stored, hdecide, h⟩ := Option.bind_eq_some_iff.mp h
      obtain rfl := Option.some.inj h
      exact arbitration_proposed hput hdecide htask hplain hapart
    · cases h
  | widening controller task request baseSequence answers =>
    obtain ⟨admitted, hadmitted, h⟩ := Option.bind_eq_some_iff.mp h
    obtain ⟨widening, hwidening, h⟩ := Option.bind_eq_some_iff.mp h
    obtain rfl := Option.some.inj h
    obtain ⟨hplan, happroved⟩ := Option.filter_eq_some_iff.mp hadmitted
    exact widening_proposed hplan (toOption_some hwidening) (htitled _ hplan happroved) hplain
      hapart
  | freezing givenBack narrowTo admission =>
    obtain ⟨claim, hsome, h⟩ := Option.bind_eq_some_iff.mp h
    obtain ⟨files, -, h⟩ := Option.bind_eq_some_iff.mp h
    exact freeze_proposed h hsome (hclaim claim hsome) rfl
  | narrowing released observed admission =>
    obtain ⟨claim, hsome, h⟩ := Option.bind_eq_some_iff.mp h
    obtain ⟨files, -, h⟩ := Option.bind_eq_some_iff.mp h
    split at h
    · exact freeze_proposed h hsome (hclaim claim hsome) rfl
    · cases h

end

/-! ## What is kept -/

/-- Two active leases of one repository that both carry an approved plan. -/
structure Rivals (a b : WorkLease) : Prop where
  repository : a.repositoryId = b.repositoryId
  apart : a.id ≠ b.id
  active : a.status = .active ∧ b.status = .active
  admitted : a.admitted = true ∧ b.admitted = true

section

variable [TextRuntime] [Printer]

/-- A save that put the plan on a lease, decided on the contract that is on another. -/
structure Settles (save : Save) (own other : WorkLease) : Prop where
  stored : own.plan = some save.stored
  seen : ∃ row ∈ save.caller.rows, row.id = other.id ∧ row.plan = other.plan
  against : Against save.decision save.stored.plan.toAgentPlan other

/-- The later save of two leases was decided on what is stored on the other. -/
def Decided (s : State) (a b : WorkLease) : Prop :=
  ∃ save, (s.saves.find? fun save =>
      save.caller.lease.id = a.id || save.caller.lease.id = b.id) = some save ∧
    ((save.caller.lease.id = a.id ∧ Settles save a b) ∨
      (save.caller.lease.id = b.id ∧ Settles save b a))

/-- What a caller has read is what is stored. -/
structure Known (leases : List WorkLease) (caller : Caller) : Prop where
  listed : ∀ row ∈ caller.seen, ∃ lease ∈ leases, lease.id = row.id ∧ lease.taskId = row.taskId
  rows : ∀ row ∈ caller.rows, ∃ lease ∈ leases, lease.id = row.id ∧ lease.plan = row.plan
  own : ∃ lease ∈ leases, lease.id = caller.lease.id ∧ lease.taskId = caller.lease.taskId ∧
    lease.repositoryId = caller.lease.repositoryId
  claim : ∀ claim, caller.claim = some claim → Claims claim = true ∧
    ∃ lease ∈ leases, lease.id = caller.lease.id ∧ lease.plan = some claim

/-- What a caller comes to save was decided on what it has read. -/
structure Sound (caller : Caller) : Prop where
  apart : ∀ row ∈ caller.seen, row.status = .active → row.id ≠ caller.lease.id →
    row.taskId ≠ caller.lease.taskId
  titled : ∀ plan, caller.lease.plan = some plan → plan.admission.approved = true →
    plan.plan.taskId = caller.lease.taskId
  claim : ∀ claim, caller.claim = some claim → claim.plan.taskId = caller.lease.taskId
  proposal : ∀ decision input, caller.proposal = some (decision, input) →
    Proposed caller decision input

theorem Sound.rows_apart {caller : Caller} (h : Sound caller) :
    ∀ row ∈ caller.rows, row.taskId ≠ caller.lease.taskId := by
  intro row hrow
  obtain ⟨-, hactive, hne, -⟩ := row_admitted hrow
  exact h.apart row (List.mem_filter.mp hrow).1 hactive hne

structure Kept (s : State) : Prop where
  ids : (s.leases.map WorkLease.id).Nodup
  tasks : ∀ a ∈ s.leases, ∀ b ∈ s.leases, a.status = .active → b.status = .active →
    a.taskId = b.taskId → a.id = b.id
  titled : ∀ lease ∈ s.leases, ∀ plan, lease.plan = some plan → plan.admission.approved = true →
    plan.plan.taskId = lease.taskId
  /-- Nobody has a contract beside a claim on the repository. -/
  unclaimed : ∀ a ∈ s.leases, ∀ b ∈ s.leases, Rivals a b → ∀ plan, a.plan = some plan →
    isBlanketClaim plan.plan.toAgentPlan = false
  known : ∀ n caller, s.callers n = some caller → Known s.leases caller
  sound : ∀ n caller, s.callers n = some caller → Sound caller
  decided : ∀ a ∈ s.leases, ∀ b ∈ s.leases, Rivals a b → Decided s a b

omit [TextRuntime] [Printer] in
theorem eq_of_id {leases : List WorkLease} (hids : (leases.map WorkLease.id).Nodup)
    {a b : WorkLease} (ha : a ∈ leases) (hb : b ∈ leases) (h : a.id = b.id) : a = b :=
  List.inj_on_of_nodup_map hids ha hb h

/-! ## Leases that end, and begin -/

/-- What does not touch the contracts of a lease. -/
structure Ages (age : WorkLease → WorkLease) : Prop where
  id : ∀ lease, (age lease).id = lease.id
  taskId : ∀ lease, (age lease).taskId = lease.taskId
  repositoryId : ∀ lease, (age lease).repositoryId = lease.repositoryId
  plan : ∀ lease, (age lease).plan = lease.plan
  active : ∀ lease, (age lease).status = .active → lease.status = .active

omit [TextRuntime] [Printer] in
theorem Ages.rivals {age : WorkLease → WorkLease} (h : Ages age) {a b : WorkLease}
    (hr : Rivals (age a) (age b)) : Rivals a b where
  repository := by rw [← h.repositoryId a, ← h.repositoryId b]; exact hr.repository
  apart := by rw [← h.id a, ← h.id b]; exact hr.apart
  active := ⟨h.active a hr.active.1, h.active b hr.active.2⟩
  admitted := by
    obtain ⟨ha, hb⟩ := hr.admitted
    unfold WorkLease.admitted at ha hb ⊢
    rw [h.plan] at ha hb
    exact ⟨ha, hb⟩

theorem Settles.age {age : WorkLease → WorkLease} (h : Ages age) {save : Save}
    {own other : WorkLease} (hs : Settles save own other) :
    Settles save (age own) (age other) where
  stored := (h.plan own).trans hs.stored
  seen := by
    rw [h.id, h.plan]
    exact hs.seen
  against := by
    unfold Against
    rw [h.plan, h.taskId]
    exact hs.against

omit [TextRuntime] [Printer] in
theorem Known.age {leases : List WorkLease} {age : WorkLease → WorkLease} (h : Ages age)
    {caller : Caller} (hk : Known leases caller) : Known (leases.map age) caller where
  listed row hrow := by
    obtain ⟨lease, hlease, hid, htask⟩ := hk.listed row hrow
    exact ⟨_, List.mem_map_of_mem hlease, (h.id lease).trans hid, (h.taskId lease).trans htask⟩
  rows row hrow := by
    obtain ⟨lease, hlease, hid, hplan⟩ := hk.rows row hrow
    exact ⟨_, List.mem_map_of_mem hlease, (h.id lease).trans hid, (h.plan lease).trans hplan⟩
  own := by
    obtain ⟨lease, hlease, hid, htask, hrepository⟩ := hk.own
    exact ⟨_, List.mem_map_of_mem hlease, (h.id lease).trans hid, (h.taskId lease).trans htask,
      (h.repositoryId lease).trans hrepository⟩
  claim claim hclaim := by
    obtain ⟨hclaims, lease, hlease, hid, hplan⟩ := hk.claim claim hclaim
    exact ⟨hclaims, _, List.mem_map_of_mem hlease, (h.id lease).trans hid,
      (h.plan lease).trans hplan⟩

theorem Kept.age {s : State} (hs : Kept s) {age : WorkLease → WorkLease} (h : Ages age) :
    Kept { s with leases := s.leases.map age } where
  ids := by
    rw [List.map_map]
    have hsame : WorkLease.id ∘ age = WorkLease.id := funext h.id
    rw [hsame]
    exact hs.ids
  tasks := by
    rw [List.forall_mem_map]
    intro a ha
    rw [List.forall_mem_map]
    intro b hb hactive hactive' htask
    rw [h.taskId, h.taskId] at htask
    rw [h.id, h.id]
    exact hs.tasks a ha b hb (h.active a hactive) (h.active b hactive') htask
  titled := by
    rw [List.forall_mem_map]
    intro a ha plan hplan
    rw [h.plan] at hplan
    rw [h.taskId]
    exact hs.titled a ha plan hplan
  unclaimed := by
    rw [List.forall_mem_map]
    intro a ha
    rw [List.forall_mem_map]
    intro b hb hrivals plan hplan
    rw [h.plan] at hplan
    exact hs.unclaimed a ha b hb (h.rivals hrivals) plan hplan
  known n caller hcaller := (hs.known n caller hcaller).age h
  sound := hs.sound
  decided := by
    rw [List.forall_mem_map]
    intro a ha
    rw [List.forall_mem_map]
    intro b hb hrivals
    obtain ⟨save, hfind, hsettles⟩ := hs.decided a ha b hb (h.rivals hrivals)
    unfold Decided
    rw [h.id, h.id]
    exact ⟨save, hfind, hsettles.imp (And.imp_right fun hown => hown.age h)
      (And.imp_right fun hown => hown.age h)⟩

omit [TextRuntime] [Printer] in
theorem ages_finish (leaseId : String) (status : WorkLeaseStatus) (finishedAt : Int) :
    Ages fun lease : WorkLease =>
      if lease.id = leaseId ∧ lease.status = .active ∧
          (if status = .expired then lease.expiresAt ≤ finishedAt
            else finishedAt < lease.expiresAt) then { lease with status }
      else lease where
  id lease := by simp only [apply_ite WorkLease.id, ite_self]
  taskId lease := by simp only [apply_ite WorkLease.taskId, ite_self]
  repositoryId lease := by simp only [apply_ite WorkLease.repositoryId, ite_self]
  plan lease := by simp only [apply_ite WorkLease.plan, ite_self]
  active lease h := by
    by_contra hnot
    rw [if_neg fun hends => hnot hends.2.1] at h
    exact hnot h

omit [TextRuntime] [Printer] in
theorem ages_expire (now : Int) : Ages fun lease : WorkLease =>
    if lease.status = .active ∧ lease.expiresAt ≤ now then { lease with status := .expired }
    else lease where
  id lease := by simp only [apply_ite WorkLease.id, ite_self]
  taskId lease := by simp only [apply_ite WorkLease.taskId, ite_self]
  repositoryId lease := by simp only [apply_ite WorkLease.repositoryId, ite_self]
  plan lease := by simp only [apply_ite WorkLease.plan, ite_self]
  active lease h := by
    by_contra hnot
    rw [if_neg fun hends => hnot hends.1] at h
    exact hnot h

omit [TextRuntime] [Printer] in
theorem Known.mono {leases leases' : List WorkLease} (h : leases ⊆ leases') {caller : Caller}
    (hk : Known leases caller) : Known leases' caller where
  listed row hrow := (hk.listed row hrow).imp fun _ hl => ⟨h hl.1, hl.2⟩
  rows row hrow := (hk.rows row hrow).imp fun _ hl => ⟨h hl.1, hl.2⟩
  own := hk.own.imp fun _ hl => ⟨h hl.1, hl.2⟩
  claim claim hclaim :=
    (hk.claim claim hclaim).imp_right fun hl => hl.imp fun _ hl => ⟨h hl.1, hl.2⟩

omit [TextRuntime] [Printer] in
theorem Rivals.old {leases : List WorkLease} {lease a b : WorkLease} (h : Rivals a b)
    (hplan : lease.plan = none) (ha : a ∈ leases ++ [lease]) (hb : b ∈ leases ++ [lease]) :
    a ∈ leases ∧ b ∈ leases := by
  have hold {c : WorkLease} (hadmitted : c.admitted = true) (hc : c ∈ leases ++ [lease]) :
      c ∈ leases := by
    refine (List.mem_append.mp hc).resolve_right fun hc => ?_
    obtain rfl := List.mem_singleton.mp hc
    rw [WorkLease.admitted, hplan] at hadmitted
    cases hadmitted
  exact ⟨hold h.admitted.1 ha, hold h.admitted.2 hb⟩

theorem Kept.issue {s : State} (hs : Kept s) {lease : WorkLease} (hplan : lease.plan = none)
    (hid : lease.id ∉ s.leases.map WorkLease.id)
    (htask : ∀ other ∈ s.leases, other.status = .active → other.taskId ≠ lease.taskId) :
    Kept { s with leases := s.leases ++ [lease] } where
  ids := by
    rw [List.map_append]
    refine List.nodup_append.mpr ⟨hs.ids, List.nodup_singleton _, ?_⟩
    rintro id hid' _ hmem rfl
    obtain rfl := List.mem_singleton.mp hmem
    exact hid hid'
  tasks a ha b hb hactive hactive' hsame := by
    rcases List.mem_append.mp ha with hold | hnew <;>
      rcases List.mem_append.mp hb with hold' | hnew'
    · exact hs.tasks a hold b hold' hactive hactive' hsame
    · obtain rfl := List.mem_singleton.mp hnew'
      exact absurd hsame (htask a hold hactive)
    · obtain rfl := List.mem_singleton.mp hnew
      exact absurd hsame.symm (htask b hold' hactive')
    · rw [List.mem_singleton.mp hnew, List.mem_singleton.mp hnew']
  titled a ha plan hsome happroved := by
    rcases List.mem_append.mp ha with ha | ha
    · exact hs.titled a ha plan hsome happroved
    · obtain rfl := List.mem_singleton.mp ha
      rw [hplan] at hsome
      cases hsome
  unclaimed a ha b hb hrivals := by
    obtain ⟨ha, hb⟩ := hrivals.old hplan ha hb
    exact hs.unclaimed a ha b hb hrivals
  known n caller hcaller := (hs.known n caller hcaller).mono (List.subset_append_left _ _)
  sound := hs.sound
  decided a ha b hb hrivals := by
    obtain ⟨ha, hb⟩ := hrivals.old hplan ha hb
    exact hs.decided a ha b hb hrivals

/-! ## Reading and deciding -/

theorem Kept.withCaller {s : State} (hs : Kept s) (n : Nat) {caller : Caller}
    (hknown : Known s.leases caller) (hsound : Sound caller) : Kept (s.withCaller n caller) where
  ids := hs.ids
  tasks := hs.tasks
  titled := hs.titled
  unclaimed := hs.unclaimed
  known m other hother := by
    by_cases hm : m = n
    · subst hm
      simp only [State.withCaller, Function.update_self, Option.some.injEq] at hother
      obtain rfl := hother
      exact hknown
    · simp only [State.withCaller, Function.update_of_ne hm] at hother
      exact hs.known m other hother
  sound m other hother := by
    by_cases hm : m = n
    · subst hm
      simp only [State.withCaller, Function.update_self, Option.some.injEq] at hother
      obtain rfl := hother
      exact hsound
    · simp only [State.withCaller, Function.update_of_ne hm] at hother
      exact hs.sound m other hother
  decided := hs.decided

theorem Kept.lists {s : State} (hs : Kept s) {lease : WorkLease} (hlease : lease ∈ s.leases)
    (hactive : lease.status = .active) {claim : Option WorkLeasePlan} {arrival : Option Nat}
    (hclaim : ∀ plan, claim = some plan → Claims plan = true ∧ lease.plan = some plan) :
    Known s.leases ⟨lease, s.leases, claim, arrival, none⟩ ∧
      Sound ⟨lease, s.leases, claim, arrival, none⟩ := by
  constructor
  · exact ⟨fun row hrow => ⟨row, hrow, rfl, rfl⟩,
      fun row hrow => ⟨row, (List.mem_filter.mp hrow).1, rfl, rfl⟩, ⟨lease, hlease, rfl, rfl, rfl⟩,
      fun plan hplan => ⟨(hclaim plan hplan).1, lease, hlease, rfl, (hclaim plan hplan).2⟩⟩
  · refine ⟨fun row hrow hrowActive hne htask => ?_, hs.titled lease hlease,
      fun plan hplan => ?_, ?_⟩
    · exact hne (hs.tasks row hrow lease hlease hrowActive hactive htask)
    · obtain ⟨hclaims, hsame⟩ := hclaim plan hplan
      exact hs.titled lease hlease plan hsame (Bool.and_eq_true_iff.mp hclaims).1
    · intro decision input hproposal
      cases hproposal

theorem Kept.left {s : State} (hs : Kept s) (n : Nat) :
    Kept { s with callers := Function.update s.callers n none } where
  ids := hs.ids
  tasks := hs.tasks
  titled := hs.titled
  unclaimed := hs.unclaimed
  known m other hother := by
    by_cases hm : m = n
    · subst hm
      simp only [Function.update_self, reduceCtorEq] at hother
    · simp only [Function.update_of_ne hm] at hother
      exact hs.known m other hother
  sound m other hother := by
    by_cases hm : m = n
    · subst hm
      simp only [Function.update_self, reduceCtorEq] at hother
    · simp only [Function.update_of_ne hm] at hother
      exact hs.sound m other hother
  decided := hs.decided

/-! ## Saving -/

omit [TextRuntime] [Printer] in
theorem observed_rows {leases : List WorkLease} (hids : (leases.map WorkLease.id).Nodup)
    {caller : Caller} (hknown : Known leases caller) {lease other : WorkLease}
    (hsame : sameLeaseIdSet (approvedPlanLeaseIds leases lease.repositoryId lease.id)
      (sortStrings (caller.rows.map WorkLease.id)) = true)
    (hother : other ∈ leases) (hrepository : other.repositoryId = lease.repositoryId)
    (hapart : other.id ≠ lease.id) (hactive : other.status = .active)
    (hadmitted : other.admitted = true) :
    ∃ row ∈ caller.rows, row.id = other.id ∧ row.taskId = other.taskId ∧ row.plan = other.plan := by
  have hin : other.id ∈ approvedPlanLeaseIds leases lease.repositoryId lease.id := by
    unfold approvedPlanLeaseIds
    rw [mem_sortStrings]
    refine List.mem_map_of_mem (List.mem_filter.mpr ⟨hother, ?_⟩)
    simp only [hrepository, hactive, hadmitted, hapart, ne_eq, not_false_eq_true, decide_true,
      Bool.and_self]
  simp only [sameLeaseIdSet, Bool.and_eq_true, decide_eq_true_eq] at hsame
  rw [← mem_sortStrings, hsame.2, mem_sortStrings, mem_sortStrings] at hin
  obtain ⟨row, hrow, hid⟩ := List.mem_map.mp hin
  obtain ⟨stored, hstored, hid', hplan⟩ := hknown.rows row hrow
  obtain rfl := eq_of_id hids hstored hother (hid'.trans hid)
  obtain ⟨listed, hlisted, hid'', htask⟩ := hknown.listed row (List.mem_filter.mp hrow).1
  obtain rfl := eq_of_id hids hlisted hother (hid''.trans hid)
  exact ⟨row, hrow, hid, htask.symm, hplan.symm⟩

/-- **What a save that is written was decided on.** Every other contract is one its caller
has read, as it is stored; the plan does not claim the repository beside them, none of
them claims it, and it was decided against them. -/
theorem saved_settles {s : State} (hs : Kept s) {caller : Caller} (hknown : Known s.leases caller)
    {decision : Decision} {input : SaveWorkLeasePlanInput}
    (hproposed : Proposed caller decision input) {lease other own : WorkLease}
    (hlease : lease ∈ s.leases) (hid : lease.id = input.leaseId) (hactive : lease.status = .active)
    (hsame : sameLeaseIdSet (approvedPlanLeaseIds s.leases lease.repositoryId lease.id)
      input.observedApprovedLeaseIds = true)
    (hown : own.id = lease.id) (hrepository : own.repositoryId = lease.repositoryId)
    (hplan : own.plan = some input.submission) (hother : other ∈ s.leases)
    (hrivals : Rivals other own) :
    isBlanketClaim input.submission.plan.toAgentPlan = false ∧
      (∀ stored, other.plan = some stored → isBlanketClaim stored.plan.toAgentPlan = false) ∧
      Settles ⟨caller, decision, input.submission⟩ own other := by
  have happroved : input.submission.admission.approved = true := by
    have hadmitted := hrivals.admitted.2
    rw [WorkLease.admitted, hplan] at hadmitted
    exact hadmitted
  rw [hproposed.observed] at hsame
  have hapart : other.id ≠ lease.id := hown ▸ hrivals.apart
  have hrepository' := hrivals.repository.trans hrepository
  obtain ⟨row, hrow, hrowId, hrowTask, hrowPlan⟩ := observed_rows hs.ids hknown hsame hother
    hrepository' hapart hrivals.active.1 hrivals.admitted.1
  cases hnarrows : decision.narrows with
  | true =>
    -- the lease carries a claim on the repository, beside which there is no contract
    obtain ⟨claim, hclaim⟩ := Option.ne_none_iff_exists'.mp (hproposed.narrows hnarrows)
    obtain ⟨hclaims, stored, hstored, hstoredId, hstoredPlan⟩ := hknown.claim claim hclaim
    obtain rfl := eq_of_id hs.ids hstored hlease
      (hstoredId.trans (hproposed.lease.symm.trans hid.symm))
    obtain ⟨hclaimed, hblanket⟩ := Bool.and_eq_true_iff.mp hclaims
    have hadmitted : stored.admitted = true := by
      rw [WorkLease.admitted, hstoredPlan]
      exact hclaimed
    have hnot := hs.unclaimed stored hlease other hother
      ⟨hrepository'.symm, hapart.symm, ⟨hactive, hrivals.active.1⟩, hadmitted, hrivals.admitted.1⟩
      claim hstoredPlan
    rw [hblanket] at hnot
    cases hnot
  | false =>
    refine ⟨?_, ?_, hplan, ⟨row, hrow, hrowId, hrowPlan⟩, ?_⟩
    · refine Bool.eq_false_iff.mpr fun hblanket => ?_
      rw [hproposed.alone happroved hblanket] at hrow
      cases hrow
    · intro stored hstored
      exact hproposed.clear hnarrows happroved row hrow stored (hrowPlan.trans hstored)
    · have hagainst := hproposed.against hnarrows happroved row hrow
      unfold Against at hagainst ⊢
      rw [hrowPlan, hrowTask] at hagainst
      exact hagainst

/-- What `setPlan` makes of one lease. -/
def replan (leaseId : String) (submission : WorkLeasePlan) (lease : WorkLease) : WorkLease :=
  if lease.id = leaseId then { lease with plan := some submission } else lease

section

omit [TextRuntime] [Printer]

variable (leaseId : String) (submission : WorkLeasePlan) (lease : WorkLease)

@[simp] theorem replan_id : (replan leaseId submission lease).id = lease.id := by
  simp only [replan, apply_ite WorkLease.id, ite_self]

@[simp] theorem replan_taskId : (replan leaseId submission lease).taskId = lease.taskId := by
  simp only [replan, apply_ite WorkLease.taskId, ite_self]

@[simp] theorem replan_status : (replan leaseId submission lease).status = lease.status := by
  simp only [replan, apply_ite WorkLease.status, ite_self]

@[simp] theorem replan_repositoryId :
    (replan leaseId submission lease).repositoryId = lease.repositoryId := by
  simp only [replan, apply_ite WorkLease.repositoryId, ite_self]

variable {leaseId lease}

theorem replan_same (h : lease.id = leaseId) :
    (replan leaseId submission lease).plan = some submission := by
  rw [replan, if_pos h]

theorem replan_other (h : lease.id ≠ leaseId) : replan leaseId submission lease = lease :=
  if_neg h

end

section

omit [TextRuntime] [Printer]

variable {leases : List WorkLease}

theorem Known.unread {caller : Caller} (hk : Known leases caller) {leaseId : String}
    (submission : WorkLeasePlan) (hreads : ¬caller.Reads leaseId) :
    Known (setPlan leases leaseId submission) caller where
  listed row hrow := by
    obtain ⟨lease, hlease, hid, htask⟩ := hk.listed row hrow
    exact ⟨replan leaseId submission lease, List.mem_map_of_mem hlease, by rw [replan_id, hid],
      by rw [replan_taskId, htask]⟩
  rows row hrow := by
    obtain ⟨lease, hlease, hid, hplan⟩ := hk.rows row hrow
    have hne : lease.id ≠ leaseId := by
      rintro rfl
      exact hreads (.inl (hid ▸ List.mem_map_of_mem hrow))
    exact ⟨lease, replan_other submission hne ▸ List.mem_map_of_mem hlease, hid, hplan⟩
  own := by
    obtain ⟨lease, hlease, hid, htask, hrepository⟩ := hk.own
    exact ⟨replan leaseId submission lease, List.mem_map_of_mem hlease, by rw [replan_id, hid],
      by rw [replan_taskId, htask], by rw [replan_repositoryId, hrepository]⟩
  claim claim hclaim := by
    obtain ⟨hclaims, lease, hlease, hid, hplan⟩ := hk.claim claim hclaim
    have hne : lease.id ≠ leaseId := by
      rintro rfl
      refine hreads (.inr ⟨?_, hid.symm⟩)
      rw [hclaim]
      exact Option.some_ne_none claim
    exact ⟨hclaims, lease, replan_other submission hne ▸ List.mem_map_of_mem hlease, hid, hplan⟩

theorem Known.retold {caller : Caller} (hk : Known leases caller) {leaseId : String}
    (submission : WorkLeasePlan) (hclaim : caller.claim ≠ none → caller.lease.id ≠ leaseId)
    (hlease : ∃ lease ∈ leases, lease.id = leaseId) : Known (setPlan leases leaseId submission)
      { caller with seen := setPlan caller.seen leaseId submission } where
  listed := by
    show ∀ row ∈ caller.seen.map (replan leaseId submission), _
    rw [List.forall_mem_map]
    intro row hrow
    obtain ⟨lease, hlease, hid, htask⟩ := hk.listed row hrow
    exact ⟨replan leaseId submission lease, List.mem_map_of_mem hlease, by simpa using hid,
      by simpa using htask⟩
  rows row hrow := by
    obtain ⟨hin, hadmitted⟩ := List.mem_filter.mp hrow
    obtain ⟨old, hold, hrow⟩ := List.mem_map.mp hin
    replace hrow : replan leaseId submission old = row := hrow
    by_cases hid : old.id = leaseId
    · obtain ⟨lease, hlease, hid'⟩ := hlease
      refine ⟨replan leaseId submission lease, List.mem_map_of_mem hlease, ?_, ?_⟩
      · rw [← hrow, replan_id, replan_id, hid, hid']
      · rw [← hrow, replan_same submission hid, replan_same submission hid']
    · rw [replan_other submission hid] at hrow
      subst hrow
      obtain ⟨lease, hlease, hsame, hplan⟩ := hk.rows old (List.mem_filter.mpr ⟨hold, hadmitted⟩)
      have hne : lease.id ≠ leaseId := hsame ▸ hid
      exact ⟨lease, replan_other submission hne ▸ List.mem_map_of_mem hlease, hsame, hplan⟩
  own := by
    obtain ⟨lease, hlease, hid, htask, hrepository⟩ := hk.own
    exact ⟨replan leaseId submission lease, List.mem_map_of_mem hlease, by rw [replan_id, hid],
      by rw [replan_taskId, htask], by rw [replan_repositoryId, hrepository]⟩
  claim claim hsome := by
    obtain ⟨hclaims, lease, hlease, hid, hplan⟩ := hk.claim claim hsome
    have hne : lease.id ≠ leaseId := by
      rw [hid]
      refine hclaim ?_
      rw [hsome]
      exact Option.some_ne_none claim
    exact ⟨hclaims, lease, replan_other submission hne ▸ List.mem_map_of_mem hlease, hid, hplan⟩

end

theorem Sound.retold {caller : Caller} (hs : Sound caller) (leaseId : String)
    (submission : WorkLeasePlan) (hundecided : caller.proposal = none) :
    Sound { caller with seen := setPlan caller.seen leaseId submission } where
  apart := by
    show ∀ row ∈ caller.seen.map (replan leaseId submission), _
    rw [List.forall_mem_map]
    intro row hrow
    rw [replan_status, replan_id, replan_taskId]
    exact hs.apart row hrow
  titled := hs.titled
  claim := hs.claim
  proposal decision input h := by
    replace h : caller.proposal = some (decision, input) := h
    rw [hundecided] at h
    cases h

variable {callers : Nat → Option Caller} {lease : WorkLease} {s : State}
  {input : SaveWorkLeasePlanInput}

omit [TextRuntime] [Printer] in
theorem callers_saved {n : Nat} {arrival : Option Nat} {leaseId : String}
    {submission : WorkLeasePlan} {m : Nat} {other : Caller} (h : (match arrival with
      | none => Function.update callers n none
      | some arrival => Function.update (Function.update callers n none) arrival
          ((Function.update callers n none arrival).map fun caller : Caller =>
            caller.told leaseId submission)) m = some other) : m ≠ n ∧ ∃ old, callers m = some old ∧
      other = if arrival = some m then old.told leaseId submission else old := by
  have hleft {other : Caller} (h : Function.update callers n none m = some other) :
      m ≠ n ∧ callers m = some other := by
    by_cases hm : m = n
    · subst hm
      simp only [Function.update_self, reduceCtorEq] at h
    · rw [Function.update_of_ne hm] at h
      exact ⟨hm, h⟩
  cases arrival with
  | none =>
    obtain ⟨hm, h⟩ := hleft h
    exact ⟨hm, other, h, (if_neg (Option.some_ne_none m).symm).symm⟩
  | some arrival =>
    dsimp only at h
    by_cases hm : m = arrival
    · subst hm
      rw [Function.update_self] at h
      obtain ⟨old, hold, rfl⟩ := Option.map_eq_some_iff.mp h
      obtain ⟨hm, hold⟩ := hleft hold
      exact ⟨hm, old, hold, (if_pos rfl).symm⟩
    · rw [Function.update_of_ne hm] at h
      obtain ⟨hne, h⟩ := hleft h
      exact ⟨hne, other, h, (if_neg fun hsame => hm (Option.some.inj hsame).symm).symm⟩

omit [TextRuntime] [Printer] in
theorem Rivals.symm {a b : WorkLease} (h : Rivals a b) : Rivals b a :=
  ⟨h.repository.symm, h.apart.symm, h.active.symm, h.admitted.symm⟩

omit [TextRuntime] [Printer] in
theorem Known.unadmitted {leases : List WorkLease} {caller : Caller} (hk : Known leases caller)
    (hids : (leases.map WorkLease.id).Nodup) (hlease : lease ∈ leases)
    (hnot : lease.admitted = false) : ¬caller.Reads lease.id := by
  have hsame {other : WorkLease} (hother : other ∈ leases) (hid : other.id = lease.id)
      {plan : WorkLeasePlan} (hplan : other.plan = some plan) :
      plan.admission.approved = false := by
    obtain rfl := eq_of_id hids hother hlease hid
    rw [WorkLease.admitted, hplan] at hnot
    exact hnot
  rintro (hin | ⟨hclaim, hid⟩)
  · obtain ⟨row, hrow, hid⟩ := List.mem_map.mp hin
    obtain ⟨other, hother, hid', hplan⟩ := hk.rows row hrow
    obtain ⟨-, -, -, stored, hstored, happroved⟩ := row_admitted hrow
    rw [hsame hother (hid'.trans hid) (hplan.trans hstored)] at happroved
    cases happroved
  · obtain ⟨claim, hclaim⟩ := Option.ne_none_iff_exists'.mp hclaim
    obtain ⟨hclaims, other, hother, hid', hplan⟩ := hk.claim claim hclaim
    have happroved := (Bool.and_eq_true_iff.mp hclaims).1
    rw [hsame hother (hid'.trans hid) hplan] at happroved
    cases happroved

theorem Kept.save_caller (hs : Kept s) {n m : Nat} {caller old : Caller} {decision : Decision}
    (hcaller : s.callers n = some caller) (hproposal : caller.proposal = some (decision, input))
    (horderly : Orderly s (.saved n)) (hlease : lease ∈ s.leases) (hid : lease.id = input.leaseId)
    (hfree : input.replaceApproved ≠ some true → lease.admitted = false) (hm : m ≠ n)
    (hold : s.callers m = some old) :
    let other := if caller.arrival = some m then old.told input.leaseId input.submission else old
    Known (setPlan s.leases input.leaseId input.submission) other ∧ Sound other := by
  have hknown := hs.known m old hold
  have hsound := hs.sound m old hold
  have hreads : ¬old.Reads input.leaseId ∨
      (caller.arrival = some m ∧ old.proposal = none ∧ old.claim = none) := by
    cases hadmitted : lease.admitted with
    | false => exact .inl (hid ▸ hknown.unadmitted hs.ids hlease hadmitted)
    | true =>
      have hreplaces : input.replaceApproved = some true := by
        by_contra hnot
        rw [hfree hnot] at hadmitted
        cases hadmitted
      exact horderly caller decision input hcaller hproposal hreplaces
        ⟨lease, hlease, hid, hadmitted⟩ m old hm hold
  dsimp only
  split
  · cases hundecided : old.proposal with
    | none =>
      have htold : old.told input.leaseId input.submission =
          { old with seen := setPlan old.seen input.leaseId input.submission } := by
        rw [Caller.told, hundecided]
        rfl
      rw [htold]
      refine ⟨hknown.retold input.submission (fun hclaim hown => ?_) ⟨lease, hlease, hid⟩,
        hsound.retold _ _ hundecided⟩
      rcases hreads with hreads | ⟨-, -, hnone⟩
      · exact hreads (.inr ⟨hclaim, hown⟩)
      · exact hclaim hnone
    | some proposal =>
      have htold : old.told input.leaseId input.submission = old := by
        rw [Caller.told, hundecided]
        rfl
      rw [htold]
      refine ⟨hknown.unread input.submission (hreads.resolve_right fun h => ?_), hsound⟩
      rw [hundecided] at h
      cases h.2.1
  · rename_i harrival
    exact ⟨hknown.unread input.submission (hreads.resolve_right fun h => harrival h.1), hsound⟩

theorem Kept.save_pair (hs : Kept s) {caller : Caller} {decision : Decision}
    (hknown : Known s.leases caller) (hproposed : Proposed caller decision input)
    (hlease : lease ∈ s.leases) (hid : lease.id = input.leaseId) (hactive : lease.status = .active)
    (hsame : sameLeaseIdSet (approvedPlanLeaseIds s.leases lease.repositoryId lease.id)
      input.observedApprovedLeaseIds = true) {t : State}
    (hsaves : t.saves = ⟨caller, decision, input.submission⟩ :: s.saves) {a b : WorkLease}
    (ha : a ∈ s.leases) (hb : b ∈ s.leases)
    (hrivals : Rivals (replan input.leaseId input.submission a)
      (replan input.leaseId input.submission b)) :
    (∀ plan, (replan input.leaseId input.submission a).plan = some plan →
        isBlanketClaim plan.plan.toAgentPlan = false) ∧
      Decided t (replan input.leaseId input.submission a)
        (replan input.leaseId input.submission b) := by
  have happly {own other : WorkLease} (hown : own ∈ s.leases) (hownId : own.id = input.leaseId)
      (hother : other ∈ s.leases)
      (hrivals : Rivals other (replan input.leaseId input.submission own)) :
      isBlanketClaim input.submission.plan.toAgentPlan = false ∧
        (∀ stored, other.plan = some stored →
          isBlanketClaim stored.plan.toAgentPlan = false) ∧
        Settles ⟨caller, decision, input.submission⟩
          (replan input.leaseId input.submission own) other := by
    obtain rfl := eq_of_id hs.ids hown hlease (hownId.trans hid.symm)
    exact saved_settles hs hknown hproposed hlease hid hactive hsame
      (replan_id input.leaseId input.submission own)
      (replan_repositoryId input.leaseId input.submission own)
      (replan_same input.submission hownId) hother hrivals
  have hwriter : caller.lease.id = input.leaseId := hproposed.lease.symm
  have hapart : a.id ≠ b.id := by
    have hne := hrivals.apart
    rwa [replan_id, replan_id] at hne
  unfold Decided
  rw [hsaves, List.find?_cons, replan_id, replan_id]
  by_cases haId : a.id = input.leaseId
  · -- the plan that is saved, against the other
    have hbId : b.id ≠ input.leaseId := fun h => hapart (haId.trans h.symm)
    rw [replan_other input.submission hbId] at hrivals ⊢
    obtain ⟨hclaim, -, hsettles⟩ := happly ha haId hb hrivals.symm
    refine ⟨fun plan hplan => ?_, ⟨caller, decision, input.submission⟩, ?_,
      .inl ⟨hwriter.trans haId.symm, hsettles⟩⟩
    · rw [replan_same input.submission haId] at hplan
      obtain rfl := Option.some.inj hplan
      exact hclaim
    · simp only [hwriter, haId, decide_true, Bool.true_or]
  · rw [replan_other input.submission haId] at hrivals ⊢
    by_cases hbId : b.id = input.leaseId
    · obtain ⟨-, hclaim, hsettles⟩ := happly hb hbId ha hrivals
      refine ⟨hclaim, ⟨caller, decision, input.submission⟩, ?_,
        .inr ⟨hwriter.trans hbId.symm, hsettles⟩⟩
      simp only [hwriter, hbId, decide_true, Bool.or_true]
    · -- neither is the lease that is saved
      rw [replan_other input.submission hbId] at hrivals ⊢
      obtain ⟨save, hfind, hsettles⟩ := hs.decided a ha b hb hrivals
      refine ⟨hs.unclaimed a ha b hb hrivals, save, ?_, hsettles⟩
      have hskips :
          (decide (caller.lease.id = a.id) || decide (caller.lease.id = b.id)) = false := by
        simp only [hwriter, Ne.symm haId, Ne.symm hbId, decide_false, Bool.or_self]
      rw [hskips]
      exact hfind

/-- **What is kept when a save is written.** -/
theorem Kept.save (hs : Kept s) {n : Nat} {caller : Caller} {decision : Decision}
    (hcaller : s.callers n = some caller) (hproposal : caller.proposal = some (decision, input))
    (horderly : Orderly s (.saved n)) (hlease : lease ∈ s.leases) (hid : lease.id = input.leaseId)
    (hactive : lease.status = .active)
    (hfree : input.replaceApproved ≠ some true → lease.admitted = false)
    (hsame : sameLeaseIdSet (approvedPlanLeaseIds s.leases lease.repositoryId lease.id)
      input.observedApprovedLeaseIds = true)
    (hcallers : ∀ {m other}, callers m = some other → m ≠ n ∧ ∃ old, s.callers m = some old ∧
      other = if caller.arrival = some m then old.told input.leaseId input.submission else old) :
    Kept { leases := setPlan s.leases input.leaseId input.submission
           callers
           saves := ⟨caller, decision, input.submission⟩ :: s.saves } := by
  have hproposed := (hs.sound n caller hcaller).proposal decision input hproposal
  have hknown := hs.known n caller hcaller
  have hpair {a b : WorkLease} (ha : a ∈ s.leases) (hb : b ∈ s.leases) :=
    hs.save_pair hknown hproposed hlease hid hactive hsame (t := ⟨
      setPlan s.leases input.leaseId input.submission, callers,
      ⟨caller, decision, input.submission⟩ :: s.saves⟩) rfl ha hb
  have hothers {m : Nat} {other : Caller} (hother : callers m = some other) :
      Known (setPlan s.leases input.leaseId input.submission) other ∧ Sound other := by
    obtain ⟨hm, old, hold, rfl⟩ := hcallers hother
    exact hs.save_caller hcaller hproposal horderly hlease hid hfree hm hold
  constructor
  case ids =>
    show ((s.leases.map (replan input.leaseId input.submission)).map WorkLease.id).Nodup
    rw [List.map_map]
    have hsame : WorkLease.id ∘ replan input.leaseId input.submission = WorkLease.id :=
      funext (replan_id _ _)
    rw [hsame]
    exact hs.ids
  case tasks =>
    show ∀ a ∈ s.leases.map (replan input.leaseId input.submission),
      ∀ b ∈ s.leases.map (replan input.leaseId input.submission), _
    simp only [List.forall_mem_map, replan_status, replan_taskId, replan_id]
    exact hs.tasks
  case titled =>
    show ∀ a ∈ s.leases.map (replan input.leaseId input.submission), _
    rw [List.forall_mem_map]
    intro a ha plan hplan happroved
    rw [replan_taskId]
    by_cases haId : a.id = input.leaseId
    · obtain rfl := eq_of_id hs.ids ha hlease (haId.trans hid.symm)
      rw [replan_same input.submission haId] at hplan
      obtain rfl := Option.some.inj hplan
      obtain ⟨own, hown, hownId, htask, -⟩ := hknown.own
      obtain rfl := eq_of_id hs.ids hown ha
        (hownId.trans (hproposed.lease.symm.trans haId.symm))
      exact (hproposed.titled happroved).trans htask.symm
    · rw [replan_other input.submission haId] at hplan
      exact hs.titled a ha plan hplan happroved
  case unclaimed =>
    show ∀ a ∈ s.leases.map (replan input.leaseId input.submission),
      ∀ b ∈ s.leases.map (replan input.leaseId input.submission), _
    simp only [List.forall_mem_map]
    exact fun a ha b hb hrivals => (hpair ha hb hrivals).1
  case known => exact fun m other hother => (hothers hother).1
  case sound => exact fun m other hother => (hothers hother).2
  case decided =>
    show ∀ a ∈ s.leases.map (replan input.leaseId input.submission),
      ∀ b ∈ s.leases.map (replan input.leaseId input.submission), _
    simp only [List.forall_mem_map]
    exact fun a ha b hb hrivals => (hpair ha hb hrivals).2

/-! ## A run -/

variable [Lemmatizer]

theorem kept_unsaved {s t : State} {event : Event} (hs : Kept s) (horderly : Orderly s event)
    (h : step s event = some t) (hsaved : ∀ n, event ≠ .saved n) : Kept t := by
  cases event with
  | issued lease =>
    simp only [step] at h
    split at h
    · rename_i hfresh
      obtain rfl := Option.some.inj h
      refine hs.issue hfresh.1 hfresh.2.1 fun other hother => ?_
      exact of_decide_eq_true (List.all_eq_true.mp hfresh.2.2 other hother)
    · cases h
  | finished leaseId status finishedAt =>
    obtain rfl := Option.some.inj h
    exact hs.age (ages_finish leaseId status finishedAt)
  | expired now =>
    obtain rfl := Option.some.inj h
    exact hs.age (ages_expire now)
  | read n leaseId =>
    obtain ⟨lease, hfind, h⟩ := Option.bind_eq_some_iff.mp h
    split at h
    · cases h
    · obtain rfl := Option.some.inj h
      have hactive := List.find?_some hfind
      simp only [Bool.and_eq_true, decide_eq_true_eq] at hactive
      have hnone (plan : WorkLeasePlan) (h : none = some plan) :
          Claims plan = true ∧ lease.plan = some plan := by cases h
      obtain ⟨hknown, hsound⟩ := hs.lists (List.mem_of_find?_eq_some hfind) hactive.2 hnone
      exact hs.withCaller n hknown hsound
  | readClaim n leaseId =>
    obtain ⟨lease, hfind, h⟩ := Option.bind_eq_some_iff.mp h
    obtain ⟨claim, hclaim, h⟩ := Option.bind_eq_some_iff.mp h
    split at h
    · cases h
    · obtain rfl := Option.some.inj h
      have hactive := List.find?_some hfind
      simp only [Bool.and_eq_true, decide_eq_true_eq] at hactive
      obtain ⟨hplan, hclaims⟩ := Option.filter_eq_some_iff.mp hclaim
      obtain ⟨hknown, hsound⟩ := hs.lists (List.mem_of_find?_eq_some hfind) hactive.2
        (fun plan hsome => Option.some.inj hsome ▸ ⟨hclaims, hplan⟩)
      exact hs.withCaller n hknown hsound
  | readHolder n arrival taskId =>
    obtain ⟨caller, hcaller, h⟩ := Option.bind_eq_some_iff.mp h
    obtain ⟨row, hrow, h⟩ := Option.bind_eq_some_iff.mp h
    obtain ⟨claim, hclaim, h⟩ := Option.bind_eq_some_iff.mp h
    obtain ⟨lease, hfind, h⟩ := Option.bind_eq_some_iff.mp h
    split at h
    · cases h
    · obtain rfl := Option.some.inj h
      have hlease := List.mem_of_find?_eq_some hfind
      have hactive := List.find?_some hfind
      simp only [Bool.and_eq_true, decide_eq_true_eq] at hactive
      have htask := List.find?_some hrow
      simp only [decide_eq_true_eq] at htask
      have hrow := List.mem_of_find?_eq_some hrow
      -- the claim is still on the holder's lease
      have hid := horderly caller hcaller row hrow htask lease hlease hactive.1 hactive.2
      obtain ⟨stored, hstored, hid', hplan⟩ := (hs.known arrival caller hcaller).rows row hrow
      obtain rfl := eq_of_id hs.ids hstored hlease (hid'.trans hid.symm)
      obtain ⟨hsome, hclaims⟩ := Option.filter_eq_some_iff.mp hclaim
      obtain ⟨hknown, hsound⟩ := hs.lists hlease hactive.2
        (fun plan hp => Option.some.inj hp ▸ ⟨hclaims, hplan.trans hsome⟩)
      exact hs.withCaller n hknown hsound
  | decided n decision =>
    obtain ⟨caller, hcaller, h⟩ := Option.bind_eq_some_iff.mp h
    obtain ⟨input, hinput, h⟩ := Option.bind_eq_some_iff.mp h
    split at h
    · cases h
    · obtain rfl := Option.some.inj h
      have hsound := hs.sound n caller hcaller
      have hknown := hs.known n caller hcaller
      refine hs.withCaller n ⟨hknown.listed, hknown.rows, hknown.own, hknown.claim⟩
        ⟨hsound.apart, hsound.titled, hsound.claim, ?_⟩
      intro decision' input' hproposal
      obtain ⟨rfl, rfl⟩ := Prod.mk.inj (Option.some.inj hproposal)
      obtain ⟨hlease, hobserved, htitled, halone, hnarrows, hclear, hagainst⟩ :=
        decide_proposed hinput (horderly caller hcaller) hsound.rows_apart hsound.titled
          hsound.claim
      exact ⟨hlease, hobserved, htitled, halone, hnarrows, hclear, hagainst⟩
  | saved n => exact absurd rfl (hsaved n)
  | left n =>
    obtain rfl := Option.some.inj h
    exact hs.left n

/-- **What an orderly step keeps.** -/
theorem kept_step {s t : State} {event : Event} (hs : Kept s) (horderly : Orderly s event)
    (h : step s event = some t) : Kept t := by
  by_cases hsaved : ∃ n, event = .saved n
  · obtain ⟨n, rfl⟩ := hsaved
    obtain ⟨caller, hcaller, h⟩ := Option.bind_eq_some_iff.mp h
    obtain ⟨⟨decision, input⟩, hproposal, h⟩ := Option.bind_eq_some_iff.mp h
    obtain rfl := Option.some.inj h
    unfold saved
    split
    · rename_i leases lease hsave
      obtain ⟨lease, hlease, hid, hactive, hfree, hsame, rfl⟩ := saveWorkLeasePlan_saved hsave
      exact hs.save hcaller hproposal horderly hlease hid hactive hfree hsame
        fun hother => callers_saved hother
    · rename_i leases result hunsaved hsave
      obtain rfl := saveWorkLeasePlan_other hsave fun lease hsaved =>
        hunsaved lease hsaved
      exact hs.left n
  · exact kept_unsaved hs horderly h fun n hn => hsaved ⟨n, hn⟩

omit [Lemmatizer] in
theorem kept_empty : Kept { leases := [] } where
  ids := List.nodup_nil
  tasks := by simp only [List.not_mem_nil, false_imp_iff, implies_true]
  titled := by simp only [List.not_mem_nil, false_imp_iff, implies_true]
  unclaimed := by simp only [List.not_mem_nil, false_imp_iff, implies_true]
  known n caller h := by cases h
  sound n caller h := by cases h
  decided := by simp only [List.not_mem_nil, false_imp_iff, implies_true]

/-- A step of the one caller there is, whose decisions are plain. -/
def Single : Event → Prop
  | .read n _ => n = 0
  | .readClaim n _ => n = 0
  | .readHolder _ _ _ => False
  | .decided n decision => n = 0 ∧ ∀ caller, Plain caller decision
  | .saved n => n = 0
  | _ => True

def Lone (s : State) : Prop := ∀ m, m ≠ 0 → s.callers m = none

omit [Printer] [Lemmatizer] in
theorem lone_orderly {event : Event} (hs : Lone s) (h : Single event) : Orderly s event := by
  cases event with
  | readHolder n arrival taskId => exact h.elim
  | decided n decision => exact fun caller _ => h.2 caller
  | saved n =>
    obtain rfl : n = 0 := h
    intro caller decision input _ _ _ _ m other hm hother
    rw [hs m hm] at hother
    cases hother
  | _ => trivial

omit [Printer] [Lemmatizer] [TextRuntime] in
theorem Lone.update (hs : Lone s) (leases : List WorkLease) (saves : List Save)
    (caller : Option Caller) : Lone ⟨leases, Function.update s.callers 0 caller, saves⟩ := by
  intro m hm
  show Function.update s.callers 0 caller m = none
  rw [Function.update_of_ne hm]
  exact hs m hm

theorem lone_step {s t : State} {event : Event} (hs : Lone s) (hsingle : Single event)
    (h : step s event = some t) : Lone t := by
  cases event with
  | issued lease =>
    simp only [step] at h
    split at h
    · obtain rfl := Option.some.inj h
      exact hs
    · cases h
  | finished leaseId status finishedAt =>
    obtain rfl := Option.some.inj h
    exact hs
  | expired now =>
    obtain rfl := Option.some.inj h
    exact hs
  | read n leaseId =>
    obtain rfl : n = 0 := hsingle
    obtain ⟨lease, -, h⟩ := Option.bind_eq_some_iff.mp h
    split at h
    · cases h
    · obtain rfl := Option.some.inj h
      exact hs.update _ _ _
  | readClaim n leaseId =>
    obtain rfl : n = 0 := hsingle
    obtain ⟨lease, -, h⟩ := Option.bind_eq_some_iff.mp h
    obtain ⟨claim, -, h⟩ := Option.bind_eq_some_iff.mp h
    split at h
    · cases h
    · obtain rfl := Option.some.inj h
      exact hs.update _ _ _
  | readHolder n arrival taskId => exact hsingle.elim
  | decided n decision =>
    obtain rfl : n = 0 := hsingle.1
    obtain ⟨caller, -, h⟩ := Option.bind_eq_some_iff.mp h
    obtain ⟨input, -, h⟩ := Option.bind_eq_some_iff.mp h
    split at h
    · cases h
    · obtain rfl := Option.some.inj h
      exact hs.update _ _ _
  | saved n =>
    obtain rfl : n = 0 := hsingle
    obtain ⟨caller, -, h⟩ := Option.bind_eq_some_iff.mp h
    obtain ⟨⟨decision, input⟩, -, h⟩ := Option.bind_eq_some_iff.mp h
    obtain rfl := Option.some.inj h
    have hlone := hs.update s.leases s.saves none
    unfold saved
    split
    · intro m hm
      dsimp only
      cases harrival : caller.arrival with
      | none => exact hlone m hm
      | some arrival =>
        dsimp only
        by_cases hsame : m = arrival
        · subst hsame
          have hnone : Function.update s.callers 0 none m = none := hlone m hm
          rw [Function.update_self, hnone, Option.map_none]
        · rw [Function.update_of_ne hsame]
          exact hlone m hm
    · exact hlone
  | left n =>
    obtain rfl := Option.some.inj h
    intro m hm
    by_cases hsame : m = n
    · subst hsame
      exact Function.update_self _ _ _
    · show Function.update s.callers n none m = none
      rw [Function.update_of_ne hsame]
      exact hs m hm

theorem single_orderly (hs : Lone s) {events : List Event}
    (hsingle : ∀ event ∈ events, Single event) : Throughout step Orderly s events := by
  induction events generalizing s with
  | nil => trivial
  | cons event events ih =>
    have hevent := hsingle event List.mem_cons_self
    exact ⟨lone_orderly hs hevent, fun t ht =>
      ih (lone_step hs hevent ht) fun event he => hsingle event (List.mem_cons_of_mem _ he)⟩

end

/-! ## Two widenings -/

section

attribute [local instance] asciiRuntime wholePrinter plainLemmatizer

/-- The plan on `tax.ts` is put to the controller. -/
def askingForTax : Arbitration where
  controller := freshController
  presented := .asStored
  agentFor _ := "resident"
  input :=
    { plan := taxContract.plan.toAgentPlan, agentId := "newcomer", baseRevision := "r1",
      baseVersion := 1, active := [] }
  riskLevel := .low

/-- The work on `cart.ts` is admitted alone, and that on `tax.ts` beside it. -/
def bothAdmitted : List Event :=
  [.issued { cartLease with plan := none }, .issued { taxLease with plan := none },
    .read 0 "lease-cart", .decided 0 (.alone .asStored (fun _ => "resident") cartContract none),
    .saved 0,
    .read 0 "lease-tax", .decided 0 (.arbitration askingForTax), .saved 0]

def filesOf (lease : WorkLease) : Option (List String) :=
  lease.plan.map fun plan => plan.plan.expectedFiles

/-- The agent on `tax.ts` asks for one more file. -/
def askingBeside (file : String) : ScopeAnswers :=
  { asking file with
    task := some ⟨"tax", "sum up", "resident", true⟩
    request := .ok { id := "s", taskId := "tax", additionalFiles := [file], reason := "needed" } }

/-- Both widen by `extra.ts`, and both have read before either saves. -/
def bothWiden : List Event :=
  [.read 0 "lease-cart", .read 1 "lease-tax",
    .decided 0 (.widening freshController ⟨"cart", "print prices", "newcomer", true⟩
      { id := "s", taskId := "cart", additionalFiles := ["extra.ts"], reason := "needed" } 1
      (asking "extra.ts")),
    .decided 1 (.widening freshController ⟨"tax", "sum up", "resident", true⟩
      { id := "s", taskId := "tax", additionalFiles := ["extra.ts"], reason := "needed" } 1
      (askingBeside "extra.ts")),
    .saved 0, .saved 1]

end

end AgenticGit.Cli.ConcurrentContracts
