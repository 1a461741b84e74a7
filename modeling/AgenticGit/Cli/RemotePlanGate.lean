import AgenticGit.Lib.Runs
import AgenticGit.Persistence.WorkLeases
import AgenticGit.Coordinator.ApprovalPolicy
import AgenticGit.Coordinator.AdmissionRoutes

/- Admitting a remote plan that a person has to approve: `gateRemotePlan` and
   `admitWorkPlan` of `worker-operations.ts`.

   Correspondence (TypeScript ↔ Lean):
     the store, as far as the two read and write it ↔ `GateStore`
     what a call of the store, the repository or the index answers ↔ `Answers`
     one call of `admitWorkPlan`            ↔ one step: the store is left alone by
       others between its reads and its saves, except for the leases that
       `Answers` says were observed
     an outcome's `reason`                  ↔ `Rejection`
     a promise that rejects                 ↔ `WorkPlanOutcome.thrown`
   Audit events, run and task statuses and `decidedAt` are left out.

   What is proved:
     1. `gateRemotePlan_asked` — the gate lets a plan through under an approval
        requested with the run of its lease, and the plan of that run only.
     2. `approved_plan_reviewed` — so after every run of submissions and decisions a
        plan the policy gives reasons for is admitted under an approval for exactly
        what it asks for if and only if it repeats the plan of its lease's run.
     3. `changed_plan_inherits_approval` — a plan that does not repeat it is admitted
        all the same. -/
namespace AgenticGit.Cli
open AgenticGit.Runtime AgenticGit.Shared AgenticGit.Persistence AgenticGit.Coordinator
  AgenticGit.Runs

/-! ## The store -/

inductive ApprovalStatus where
  | pending | approved | rejected | cancelled | expired
  deriving DecidableEq, Repr

structure ApprovalRequest where
  runId : Nat
  taskId : String
  status : ApprovalStatus
  requestedBy : String
  reasons : List String
  expiresAt : Int
  decisionComment : Option String := none
  deriving DecidableEq, Repr

structure GateStore where
  leases : List WorkLease
  /-- An approval's id is its position. -/
  approvals : List ApprovalRequest
  /-- The plan `savePlan` wrote on the task of each run; a run's id is its position. -/
  runs : List RemotePlan
  deriving DecidableEq, Repr

def expireApprovals (approvals : List ApprovalRequest) (now : Int) : List ApprovalRequest :=
  approvals.map fun approval =>
    if approval.status = .pending ∧ approval.expiresAt ≤ now then
      { approval with status := .expired }
    else approval

/-- Decides a pending approval; any other is left as it is. -/
def decideApproval (approvals : List ApprovalRequest) (id : Nat) (status : ApprovalStatus)
    (comment : Option String) : List ApprovalRequest :=
  approvals.mapIdx fun i approval =>
    if i = id ∧ approval.status = .pending then
      { approval with status, decisionComment := comment }
    else approval

/-! ## gateRemotePlan -/

def APPROVAL_POLL_RETRY_MS : Int := 5000

inductive Rejection where
  | notClaimed
  | invalidPlan (error : AgentPlanError)
  | differentTask
  | differentObjective
  | unknownRepository
  | baseUnusable
  | notApproved (approvalId : Nat) (status : ApprovalStatus) (comment : Option String)
  deriving DecidableEq, Repr

inductive PlanGate where
  | approved (runId : Nat)
  | pending (admission : RemoteAdmission)
  | refused (reason : Rejection)
  deriving DecidableEq, Repr

structure LeasedTask where
  id : String
  objective : String
  agentId : String
  claimed : Bool
  deriving DecidableEq, Repr

def pendingAdmission (task : LeasedTask) (baseRevision : String) (reasons : List String)
    (approvalId openRunId : Nat) : RemoteAdmission where
  status := .sequenced
  taskId := task.id
  planRevision := 1
  baseRevision
  ownershipGrants := []
  constraints := ["Hold this plan until a reviewer decides; do not start editing"]
  blockedBy := []
  conflicts := []
  explanation := "Plan is waiting for human approval: " ++ "; ".intercalate reasons
  retryAfterMs := some APPROVAL_POLL_RETRY_MS
  awaitingApproval := some true
  approvalId := some approvalId
  runId := some openRunId

def requestApproval (store : GateStore) (task : LeasedTask) (baseRevision : String)
    (plan : RemotePlan) (reasons : List String) (runId : Option Nat) (now timeoutMs : Int) :
    GateStore × PlanGate :=
  let openRunId := runId.getD store.runs.length
  let runs := if runId.isSome then store.runs else store.runs ++ [plan]
  let request : ApprovalRequest :=
    { runId := openRunId, taskId := task.id, status := .pending, requestedBy := task.agentId,
      reasons, expiresAt := now + timeoutMs }
  ({ store with runs, approvals := store.approvals ++ [request] },
    .pending (pendingAdmission task baseRevision reasons store.approvals.length openRunId))

/-- Holds a risky remote plan for a reviewer before any agent runs. -/
def gateRemotePlan (store : GateStore) (lease : WorkLease) (task : LeasedTask)
    (plan : RemotePlan) (reasons : List String) (now timeoutMs : Int) : GateStore × PlanGate :=
  let previous := lease.plan.map WorkLeasePlan.admission
  let runId := previous.bind RemoteAdmission.runId
  match previous.bind RemoteAdmission.approvalId, runId with
  | some approvalId, some openRunId =>
    let store := { store with approvals := expireApprovals store.approvals now }
    match store.approvals[approvalId]? with
    | none => requestApproval store task lease.baseRevision plan reasons runId now timeoutMs
    | some current =>
      match current.status with
      | .approved => (store, .approved openRunId)
      | .pending =>
        (store, .pending (pendingAdmission task lease.baseRevision reasons approvalId openRunId))
      | status => (store, .refused (.notApproved approvalId status current.decisionComment))
  | _, _ => requestApproval store task lease.baseRevision plan reasons runId now timeoutMs

/-! ## admitWorkPlan -/

inductive WorkPlanOutcome where
  | leaseLost
  | rejected (reason : Rejection)
  | admitted (admission : RemoteAdmission)
  | thrown
  deriving DecidableEq, Repr

structure WorkPlanInput where
  leaseId : String
  plan : RemotePlan

/-- Where canonical stands against a lease's base: unreadable, moved in a way that
asks for a new plan, or such that the plan stands. -/
inductive Canonical where
  | unreadable
  | moved
  | stands (baseSequence : Int)
  deriving DecidableEq, Repr

/-- One round of arbitration: the enriched plan against the plans executing, and
the leases these were read from. -/
structure Attempt where
  input : PlanAdmissionInput
  observed : List String

structure Answers where
  now : Int
  task : Option LeasedTask
  repositoryKnown : Bool
  canonical : Canonical
  policy : ApprovalPolicy
  /-- The other leases with an approved plan, as read while the gate holds the plan
  and before the solo admission. -/
  gateObserved : List String
  soloObserved : List String
  createId : Nat → String
  /-- As many as `maxAdmissionAttempts` allows. -/
  attempts : List Attempt

/-- The checks that bind a submission to the leased task. -/
def submittedPlan (task : LeasedTask) (plan : RemotePlan) : Except Rejection RemotePlan :=
  match assertAgentPlan plan.toAgentPlan with
  | .error error => .error (.invalidPlan error)
  | .ok value =>
    if value.taskId ≠ task.id then .error .differentTask
    else if trim value.objective ≠ trim task.objective then .error .differentObjective
    else .ok { value with riskLevel := plan.riskLevel }

def savePlan (store : GateStore) (lease : WorkLease) (plan : RemotePlan)
    (admission : RemoteAdmission) (observed : List String) :
    GateStore × SaveWorkLeasePlanResult :=
  let saved := saveWorkLeasePlan store.leases
    { leaseId := lease.id, submission := ⟨plan, admission⟩, observedApprovedLeaseIds := observed }
  ({ store with leases := saved.1 }, saved.2)

def soloAdmission (task : LeasedTask) (baseRevision : String) (grants : List ResourceLease)
    (gatedRunId : Option Nat) : RemoteAdmission where
  status := .approved
  taskId := task.id
  planRevision := 1
  baseRevision
  ownershipGrants := grants
  constraints := []
  blockedBy := []
  conflicts := []
  explanation := "Approved without arbitration: no other task is executing in " ++
    "this repository. Exact-base integration remains in force."
  runId := gatedRunId

section

variable [TextRuntime] [Printer] [Lemmatizer]

/-- The solo fast path; no outcome when it does not apply, or another admission
landed between the read and the write. -/
def admitSolo (store : GateStore) (lease : WorkLease) (task : LeasedTask)
    (submitted : RemotePlan) (baseSequence : Int) (gatedRunId : Option Nat) (answers : Answers) :
    GateStore × Option WorkPlanOutcome :=
  if answers.soloObserved.length = 0 then
    let service : OwnershipService :=
      ⟨300000, defaultTtl_safe, defaultTtl_min, defaultOwnershipPolicy, .empty⟩
    match (service.acquire answers.now answers.createId submitted.toAgentPlan task.agentId
        baseSequence
        { approvedResources := some (approvedSchemaResources submitted.toAgentPlan) }).1 with
    | .error _ => (store, some .thrown)
    | .ok grants =>
      let admission := soloAdmission task lease.baseRevision grants gatedRunId
      match savePlan store lease submitted admission answers.soloObserved with
      | (store, .leaseLost) => (store, some .leaseLost)
      | (store, .alreadyAdmitted saved) =>
        (store, saved.plan.map fun plan => .admitted plan.admission)
      | (store, .saved _) => (store, some (.admitted admission))
      | (store, .stale _) => (store, none)
  else (store, none)

def contendedAdmission (task : LeasedTask) (baseRevision : String) : RemoteAdmission where
  status := .sequenced
  taskId := task.id
  planRevision := 1
  baseRevision
  ownershipGrants := []
  constraints := ["Resubmit the same plan after the retry interval"]
  blockedBy := []
  conflicts := []
  explanation := "Plan admission is contended in this repository; resubmit shortly"
  retryAfterMs := some DEFAULT_PLAN_RETRY_MS

def arbitrate (admissions : PlanAdmissionController) (lease : WorkLease) (task : LeasedTask)
    (submitted : RemotePlan) (gatedRunId : Option Nat) :
    List Attempt → GateStore → GateStore × WorkPlanOutcome
  | [], store => (store, .admitted (contendedAdmission task lease.baseRevision))
  | attempt :: attempts, store =>
    match admissions.admitPlan attempt.input with
    | .error _ => (store, .thrown)
    | .ok decided =>
      match grantedPlan attempt.input.plan decided with
      | .error _ => (store, .thrown)
      | .ok admittedPlan =>
        let admission : RemoteAdmission := { decided with runId := gatedRunId }
        match savePlan store lease { admittedPlan with riskLevel := submitted.riskLevel } admission
            attempt.observed with
        | (store, .leaseLost) => (store, .leaseLost)
        | (store, .stale _) =>
          arbitrate admissions lease task submitted gatedRunId attempts store
        | (store, .alreadyAdmitted saved) =>
          (store, (saved.plan.map fun plan => .admitted plan.admission).getD .thrown)
        | (store, .saved _) => (store, .admitted admission)

def admitGated (admissions : PlanAdmissionController) (store : GateStore) (lease : WorkLease)
    (task : LeasedTask) (submitted : RemotePlan) (baseSequence : Int) (gatedRunId : Option Nat)
    (answers : Answers) : GateStore × WorkPlanOutcome :=
  match admitSolo store lease task submitted baseSequence gatedRunId answers with
  | (store, some outcome) => (store, outcome)
  | (store, none) =>
    arbitrate admissions lease task submitted gatedRunId answers.attempts store

def admitSubmitted (admissions : PlanAdmissionController) (store : GateStore) (lease : WorkLease)
    (task : LeasedTask) (submitted : RemotePlan) (baseSequence : Int) (answers : Answers) :
    GateStore × WorkPlanOutcome :=
  let gateReasons := answers.policy.remotePlanReasons submitted
  if 0 < gateReasons.length then
    match gateRemotePlan store lease task submitted gateReasons answers.now
        answers.policy.timeoutMs with
    | (store, .refused reason) =>
      ({ store with leases := finishWorkLease store.leases lease.id .failed answers.now },
        .rejected reason)
    | (store, .pending admission) =>
      match savePlan store lease submitted admission answers.gateObserved with
      | (store, .leaseLost) => (store, .leaseLost)
      | (store, _) => (store, .admitted admission)
    | (store, .approved runId) =>
      admitGated admissions store lease task submitted baseSequence (some runId) answers
  else admitGated admissions store lease task submitted baseSequence none answers

def requeueAdmission (task : LeasedTask) (baseRevision : String) : RemoteAdmission where
  status := .blocked
  taskId := task.id
  planRevision := 1
  baseRevision
  ownershipGrants := []
  constraints := ["Plan again from the current canonical revision"]
  blockedBy := []
  conflicts := []
  explanation := "Canonical advanced before this plan was submitted; the task was " ++
    "requeued to replan"
  requeue := some true

def reject (store : GateStore) (lease : WorkLease) (now : Int) (reason : Rejection) :
    GateStore × WorkPlanOutcome :=
  ({ store with leases := finishWorkLease store.leases lease.id .failed now }, .rejected reason)

/-- Arbitrates a remote worker's plan before it edits anything. -/
def admitWorkPlan (admissions : PlanAdmissionController) (store : GateStore)
    (input : WorkPlanInput) (answers : Answers) : GateStore × WorkPlanOutcome :=
  let store := { store with leases := expireWorkLeases store.leases answers.now }
  match store.leases.find? fun lease => lease.id = input.leaseId with
  | none => (store, .thrown)
  | some lease =>
    if lease.status ≠ .active ∨ lease.expiresAt ≤ answers.now then (store, .leaseLost)
    else
      match answers.task.filter LeasedTask.claimed with
      | none => reject store lease answers.now .notClaimed
      | some task =>
        match lease.plan.filter fun plan => plan.admission.approved with
        | some plan => (store, .admitted plan.admission)
        | none =>
          match submittedPlan task input.plan with
          | .error reason => reject store lease answers.now reason
          | .ok submitted =>
            if answers.repositoryKnown then
              match answers.canonical with
              | .unreadable => reject store lease answers.now .baseUnusable
              | .moved =>
                ({ store with
                    leases := finishWorkLease store.leases lease.id .released answers.now },
                  .admitted (requeueAdmission task lease.baseRevision))
              | .stands baseSequence =>
                admitSubmitted admissions store lease task submitted baseSequence answers
            else reject store lease answers.now .unknownRepository

end

/-! ## What is kept -/

/-- An approved approval, requested with a run that was opened for a plan. -/
def Approved (store : GateStore) (runId : Nat) (plan : RemotePlan) : Prop :=
  store.runs[runId]? = some plan ∧
    ∃ approval ∈ store.approvals, approval.runId = runId ∧ approval.status = .approved

def leaseRun (lease : WorkLease) : Option Nat :=
  (lease.plan.map WorkLeasePlan.admission).bind RemoteAdmission.runId

/-- An answer that lets nobody execute yet names a run there is, and an approval
requested with that run. -/
def Linked (store : GateStore) (admission : RemoteAdmission) : Prop :=
  admission.approved = false → ∀ runId, admission.runId = some runId →
    (∃ saved, store.runs[runId]? = some saved) ∧
      ∀ approvalId, admission.approvalId = some approvalId →
        ∃ approval, store.approvals[approvalId]? = some approval ∧ approval.runId = runId

def Bound (store : GateStore) : Prop :=
  ∀ lease ∈ store.leases, ∀ plan, lease.plan = some plan → Linked store plan.admission

/-- Approvals and runs only ever grow: a run keeps its plan, an approval its run and
the answer `approved`. -/
structure Extends (s t : GateStore) : Prop where
  approvals : ∀ (i : Nat) approval, s.approvals[i]? = some approval →
    ∃ approval', t.approvals[i]? = some approval' ∧ approval'.runId = approval.runId ∧
      (approval.status = .approved → approval'.status = .approved)
  runs : ∀ (i : Nat) plan, s.runs[i]? = some plan → t.runs[i]? = some plan

theorem Extends.of_eq {s t : GateStore} (ha : t.approvals = s.approvals) (hr : t.runs = s.runs) :
    Extends s t where
  approvals _ approval h := ⟨approval, ha ▸ h, rfl, id⟩
  runs _ _ h := hr ▸ h

theorem Extends.trans {s t u : GateStore} (h : Extends s t) (h' : Extends t u) : Extends s u where
  approvals i approval hi := by
    obtain ⟨mid, hmid, hrun, hstatus⟩ := h.approvals i approval hi
    obtain ⟨last, hlast, hrun', hstatus'⟩ := h'.approvals i mid hmid
    exact ⟨last, hlast, hrun'.trans hrun, fun ha => hstatus' (hstatus ha)⟩
  runs i plan hi := h'.runs i plan (h.runs i plan hi)

theorem Approved.mono {s t : GateStore} (h : Extends s t) {runId : Nat} {plan : RemotePlan}
    (ha : Approved s runId plan) : Approved t runId plan := by
  obtain ⟨hrun, approval, hmem, rfl, happroved⟩ := ha
  obtain ⟨i, hi⟩ := List.mem_iff_getElem?.mp hmem
  obtain ⟨approval', hi', hsame, hstatus⟩ := h.approvals i approval hi
  exact ⟨h.runs _ _ hrun, approval', List.mem_of_getElem? hi', hsame, hstatus happroved⟩

theorem Linked.mono {s t : GateStore} (h : Extends s t) {admission : RemoteAdmission}
    (hl : Linked s admission) : Linked t admission := by
  intro hopen runId hrun
  obtain ⟨⟨saved, hsaved⟩, happroval⟩ := hl hopen runId hrun
  refine ⟨⟨saved, h.runs _ _ hsaved⟩, fun approvalId hid => ?_⟩
  obtain ⟨approval, hi, hr⟩ := happroval approvalId hid
  obtain ⟨approval', hi', hr', -⟩ := h.approvals _ _ hi
  exact ⟨approval', hi', hr'.trans hr⟩

variable {store : GateStore} {lease : WorkLease} {task : LeasedTask} {reasons : List String}
  {now timeoutMs : Int}

theorem Linked.of_approved {admission : RemoteAdmission} (h : admission.approved = true) :
    Linked store admission := by
  intro hopen
  rw [h] at hopen
  cases hopen

theorem Bound.extend {s t : GateStore} (h : Bound s) (hx : Extends s t)
    (hl : PlansFrom s.leases t.leases) : Bound t := by
  intro lease hlease plan hplan
  obtain ⟨old, hold, -, hsame⟩ := hl lease hlease
  exact (h old hold plan (hsame.trans hplan)).mono hx

theorem Bound.leases {s : GateStore} (h : Bound s) {leases : List WorkLease}
    (hl : PlansFrom s.leases leases) : Bound { s with leases := leases } :=
  h.extend (.of_eq rfl rfl) hl

/-! ## One submission -/

structure Keeps (s t : GateStore) : Prop where
  grown : Extends s t
  bound : Bound t

theorem bound_setPlan {id : String} {submission : WorkLeasePlan} (h : Bound store)
    (hl : Linked store submission.admission) :
    Bound { store with leases := setPlan store.leases id submission } := by
  intro other hother p hp
  rcases mem_setPlan hother with ⟨-, hown⟩ | ⟨-, hold⟩
  · obtain rfl := Option.some.inj (hown.symm.trans hp)
    exact hl
  · exact h other hold p hp

theorem keeps_savePlan {s t : GateStore} {plan : RemotePlan} {admission : RemoteAdmission}
    {observed : List String} {result : SaveWorkLeasePlanResult} (h : Bound s)
    (hl : Linked s admission) (hs : savePlan s lease plan admission observed = (t, result)) :
    Keeps s t := by
  cases hsave : saveWorkLeasePlan s.leases
      { leaseId := lease.id, submission := ⟨plan, admission⟩,
        observedApprovedLeaseIds := observed } with
  | mk leases result' =>
    simp only [savePlan, hsave, Prod.mk.injEq] at hs
    obtain ⟨rfl, rfl⟩ := hs
    refine ⟨.of_eq rfl rfl, ?_⟩
    by_cases hnot : ∀ saved, result' ≠ .saved saved
    · obtain rfl := saveWorkLeasePlan_other hsave hnot
      exact h
    · simp only [not_forall, not_not] at hnot
      obtain ⟨saved, rfl⟩ := hnot
      obtain ⟨-, -, -, -, -, -, rfl⟩ := saveWorkLeasePlan_saved hsave
      exact bound_setPlan h hl

theorem extends_expireApprovals (store : GateStore) (now : Int) :
    Extends store { store with approvals := expireApprovals store.approvals now } where
  approvals i approval hi := by
    have hmap := congrArg (Option.map fun approval : ApprovalRequest =>
      if approval.status = .pending ∧ approval.expiresAt ≤ now then
        { approval with status := .expired }
      else approval) hi
    rw [← List.getElem?_map, Option.map_some] at hmap
    refine ⟨_, hmap, ?_, fun happroved => ?_⟩
    · split <;> rfl
    · rw [if_neg]
      · exact happroved
      · rw [happroved]
        rintro ⟨hpending, -⟩
        cases hpending
  runs _ _ h := h

/-- What the gate leaves behind: a store that has only grown, under the same leases. -/
structure Asked (s t : GateStore) : Prop where
  grown : Extends s t
  leases : t.leases = s.leases

theorem Asked.bound {s t : GateStore} (h : Asked s t) (hb : Bound s) : Bound t :=
  hb.extend h.grown fun lease hlease => ⟨lease, h.leases ▸ hlease, rfl, rfl⟩

theorem requestApproval_asked {s t : GateStore} {baseRevision : String} {plan : RemotePlan}
    {runId : Option Nat} {gate : PlanGate}
    (hrun : ∀ r, runId = some r → ∃ saved, s.runs[r]? = some saved)
    (h : requestApproval s task baseRevision plan reasons runId now timeoutMs = (t, gate)) :
    Asked s t ∧ ∃ admission, gate = .pending admission ∧ admission.approved = false ∧
      Linked t admission := by
  simp only [requestApproval, Prod.mk.injEq] at h
  obtain ⟨rfl, rfl⟩ := h
  have happroval : ∀ (i : Nat) approval, s.approvals[i]? = some approval → ∀ request,
      (s.approvals ++ [request])[i]? = some approval := by
    intro i approval hi request
    rw [List.getElem?_append_left (List.getElem?_eq_some_iff.mp hi).1, hi]
  have hgrow : ∀ (i : Nat) saved, s.runs[i]? = some saved →
      (if runId.isSome then s.runs else s.runs ++ [plan])[i]? = some saved := by
    intro i saved hi
    split
    · exact hi
    · rw [List.getElem?_append_left (List.getElem?_eq_some_iff.mp hi).1, hi]
  refine ⟨⟨⟨fun i approval hi => ?_, hgrow⟩, rfl⟩, _, rfl, rfl, fun _ r hr => ?_⟩
  · exact ⟨approval, happroval i approval hi _, rfl, id⟩
  · obtain rfl := Option.some.inj hr
    refine ⟨?_, fun approvalId hid => ?_⟩
    · cases hrunId : runId with
      | some r =>
        obtain ⟨saved, hsaved⟩ := hrun r hrunId
        exact ⟨saved, by simpa [hrunId] using hsaved⟩
      | none => exact ⟨plan, by simp⟩
    · obtain rfl := Option.some.inj hid
      exact ⟨_, List.getElem?_concat_length .., rfl⟩

/-- **The gate.** It waits with a linked answer, or lets the plan through under an
approval for what the plan of the lease's run asks for. -/
theorem gateRemotePlan_asked {s t : GateStore} {plan : RemotePlan} {gate : PlanGate} (h : Bound s)
    (hlease : lease ∈ s.leases) (hopen : ∀ p, lease.plan = some p → p.admission.approved = false)
    (hg : gateRemotePlan s lease task plan reasons now timeoutMs = (t, gate)) : Asked s t ∧
      (∀ admission, gate = .pending admission →
        admission.approved = false ∧ Linked t admission) ∧
      ∀ runId, gate = .approved runId → leaseRun lease = some runId ∧
        ∃ saved, Approved t runId saved := by
  have hlinked : ∀ r, leaseRun lease = some r →
      (∃ saved, s.runs[r]? = some saved) ∧ ∀ a,
        (lease.plan.map WorkLeasePlan.admission).bind RemoteAdmission.approvalId = some a →
        ∃ approval, s.approvals[a]? = some approval ∧ approval.runId = r := by
    intro r hr
    cases hp : lease.plan with
    | none =>
      rw [leaseRun, hp] at hr
      cases hr
    | some p =>
      rw [leaseRun, hp] at hr
      exact h lease hlease p hp (hopen p hp) r hr
  simp only [gateRemotePlan] at hg
  split at hg
  · rename_i approvalId openRunId hid hrun
    have hx := extends_expireApprovals s now
    have hasked : Asked s { s with approvals := expireApprovals s.approvals now } := ⟨hx, rfl⟩
    obtain ⟨⟨saved, hsaved⟩, happroval⟩ := hlinked openRunId hrun
    obtain ⟨old, hold, hrunOld⟩ := happroval approvalId hid
    obtain ⟨current, hcurrent, hrunCurrent, -⟩ := hx.approvals _ _ hold
    rw [hcurrent] at hg
    dsimp only at hg
    split at hg
    · rename_i hstatus
      cases hg
      refine ⟨hasked, (fun _ hpending => nomatch hpending), fun runId heq => ?_⟩
      obtain rfl := PlanGate.approved.inj heq
      exact ⟨hrun, saved, hsaved, current, List.mem_of_getElem? hcurrent,
        hrunCurrent.trans hrunOld, hstatus⟩
    · cases hg
      refine ⟨hasked, fun admission hpending => ?_, (fun _ heq => nomatch heq)⟩
      obtain rfl := PlanGate.pending.inj hpending
      refine ⟨rfl, fun _ r hr => ?_⟩
      obtain rfl := Option.some.inj hr
      refine ⟨⟨saved, hsaved⟩, fun a ha => ?_⟩
      obtain rfl := Option.some.inj ha
      exact ⟨current, hcurrent, hrunCurrent.trans hrunOld⟩
    · cases hg
      exact ⟨hasked, (fun _ hpending => nomatch hpending), (fun _ heq => nomatch heq)⟩
  · obtain ⟨hasked, admission, rfl, hl⟩ := requestApproval_asked (fun r hr => (hlinked r hr).1) hg
    refine ⟨hasked, fun admission' hpending => ?_, (fun _ heq => nomatch heq)⟩
    obtain rfl := PlanGate.pending.inj hpending
    exact hl

section

variable [TextRuntime]

variable {s t : GateStore} {baseSequence : Int} {gatedRunId : Option Nat}
  {admissions : PlanAdmissionController} {outcome : WorkPlanOutcome}

theorem keeps_admitSolo {lease : WorkLease} {task : LeasedTask} {submitted : RemotePlan}
    {answers : Answers} {outcome : Option WorkPlanOutcome} (h : Bound s)
    (hs : admitSolo s lease task submitted baseSequence gatedRunId answers = (t, outcome)) :
    Keeps s t := by
  have same : Keeps s s := ⟨.of_eq rfl rfl, h⟩
  simp only [admitSolo] at hs
  split at hs
  · split at hs
    · cases hs
      exact same
    · rename_i grants _
      have hsolo : (soloAdmission task lease.baseRevision grants gatedRunId).approved = true := rfl
      split at hs <;> rename_i heq <;> cases hs <;>
        exact keeps_savePlan h (.of_approved hsolo) heq
  · cases hs
    exact same

variable [Printer] [Lemmatizer]

/-- The loop over rounds: each save of the loop is of an answer linked to the run the
gate answered. -/
theorem keeps_arbitrate {lease : WorkLease} {task : LeasedTask} {submitted : RemotePlan}
    {attempts : List Attempt} (h : Bound s)
    (hrun : ∀ r, gatedRunId = some r → ∃ saved, s.runs[r]? = some saved)
    (hs : arbitrate admissions lease task submitted gatedRunId attempts s = (t, outcome)) :
    Keeps s t := by
  induction attempts generalizing s with
  | nil =>
    cases hs
    exact ⟨.of_eq rfl rfl, h⟩
  | cons attempt attempts ih =>
    simp only [arbitrate] at hs
    split at hs
    · cases hs
      exact ⟨.of_eq rfl rfl, h⟩
    · rename_i decided _
      split at hs
      · cases hs
        exact ⟨.of_eq rfl rfl, h⟩
      · have hl : Linked s { decided with runId := gatedRunId } :=
          fun _ r hgated => ⟨hrun r hgated, fun approvalId hid => nomatch hid⟩
        split at hs <;> rename_i heq <;> have hk := keeps_savePlan h hl heq
        · cases hs
          exact hk
        · obtain ⟨hx, hb⟩ := ih hk.bound (fun r hgated => by
            obtain ⟨saved, hsaved⟩ := hrun r hgated
            exact ⟨saved, hk.grown.runs _ _ hsaved⟩) hs
          exact ⟨hk.grown.trans hx, hb⟩
        · cases hs
          exact hk
        · cases hs
          exact hk

theorem keeps_admitGated {lease : WorkLease} {task : LeasedTask} {submitted : RemotePlan}
    {answers : Answers} (h : Bound s)
    (hrun : ∀ r, gatedRunId = some r → ∃ saved, s.runs[r]? = some saved)
    (hs : admitGated admissions s lease task submitted baseSequence gatedRunId answers =
      (t, outcome)) : Keeps s t := by
  simp only [admitGated] at hs
  split at hs <;> rename_i heq <;> have hk := keeps_admitSolo h heq
  · cases hs
    exact hk
  · obtain ⟨hx, hb⟩ := keeps_arbitrate hk.bound (fun r hgated => by
      obtain ⟨saved, hsaved⟩ := hrun r hgated
      exact ⟨saved, hk.grown.runs _ _ hsaved⟩) hs
    exact ⟨hk.grown.trans hx, hb⟩

/-- Through the gate: the store is kept, and a plan the policy stops executes under an
approval for what the plan of the lease's run asks for. -/
theorem keeps_admitSubmitted {lease : WorkLease} {task : LeasedTask} {submitted : RemotePlan}
    {answers : Answers} (h : Bound s) (hlease : lease ∈ s.leases)
    (hopen : ∀ p, lease.plan = some p → p.admission.approved = false)
    (hs : admitSubmitted admissions s lease task submitted baseSequence answers = (t, outcome)) :
    Keeps s t ∧ ∀ admission, outcome = .admitted admission → admission.approved = true →
      answers.policy.remotePlanReasons submitted ≠ [] →
        ∃ runId saved, leaseRun lease = some runId ∧ Approved t runId saved := by
  simp only [admitSubmitted] at hs
  split at hs
  · cases hg : gateRemotePlan s lease task submitted (answers.policy.remotePlanReasons submitted)
        answers.now answers.policy.timeoutMs with
    | mk u gate =>
      obtain ⟨hasked, hpending, happroved⟩ := gateRemotePlan_asked h hlease hopen hg
      have hb := hasked.bound h
      rw [hg] at hs
      cases gate with
      | refused reason =>
        cases hs
        refine ⟨⟨⟨hasked.grown.approvals, hasked.grown.runs⟩,
          hb.leases (plansFrom_finishWorkLease _ _ _ _)⟩, (fun _ hno => nomatch hno)⟩
      | pending admission =>
        obtain ⟨hwait, hl⟩ := hpending admission rfl
        dsimp only at hs
        split at hs <;> rename_i heq <;> cases hs <;>
          have hk := keeps_savePlan hb hl heq
        · exact ⟨⟨hasked.grown.trans hk.grown, hk.bound⟩, (fun _ hno => nomatch hno)⟩
        · refine ⟨⟨hasked.grown.trans hk.grown, hk.bound⟩, fun a ha happ => ?_⟩
          obtain rfl := WorkPlanOutcome.admitted.inj ha
          rw [hwait] at happ
          cases happ
      | approved runId =>
        obtain ⟨hrun, saved, hap⟩ := happroved runId rfl
        have hk := keeps_admitGated hb (fun r hgated => by
          obtain rfl := Option.some.inj hgated
          exact ⟨saved, hap.1⟩) hs
        exact ⟨⟨hasked.grown.trans hk.grown, hk.bound⟩,
          fun _ _ _ _ => ⟨runId, saved, hrun, hap.mono hk.grown⟩⟩
  · rename_i hnone
    refine ⟨keeps_admitGated h ?_ hs, fun _ _ _ hne => ?_⟩
    · intro r hgated
      cases hgated
    · exact absurd (List.length_pos_iff.mpr hne) hnone

/-- How an answer that lets the worker execute came about: the lease had that contract
already, or the submission passed the gate. -/
def Admitted (s t : GateStore) (input : WorkPlanInput) (answers : Answers)
    (admission : RemoteAdmission) : Prop :=
  (∃ lease ∈ s.leases, lease.id = input.leaseId ∧
    lease.plan.map WorkLeasePlan.admission = some admission) ∨
  ∃ lease ∈ s.leases, lease.id = input.leaseId ∧ lease.admitted = false ∧ ∃ task submitted,
    answers.task = some task ∧ submittedPlan task input.plan = .ok submitted ∧
    (answers.policy.remotePlanReasons submitted ≠ [] →
      ∃ runId saved, leaseRun lease = some runId ∧ Approved t runId saved)

theorem keeps_admitWorkPlan {input : WorkPlanInput} {answers : Answers} (h : Bound s)
    (hs : admitWorkPlan admissions s input answers = (t, outcome)) :
    Keeps s t ∧ ∀ admission, outcome = .admitted admission → admission.approved = true →
      Admitted s t input answers admission := by
  have hb := h.leases (plansFrom_expireWorkLeases s.leases answers.now)
  have leased {leases : List WorkLease} (hl : PlansFrom (expireWorkLeases s.leases answers.now)
      leases) : Keeps s { s with leases := leases } := ⟨.of_eq rfl rfl, hb.leases hl⟩
  have expired : Keeps s { s with leases := expireWorkLeases s.leases answers.now } :=
    ⟨.of_eq rfl rfl, hb⟩
  simp only [admitWorkPlan, reject] at hs
  split at hs
  · cases hs
    exact ⟨expired, (fun _ hno => nomatch hno)⟩
  · rename_i lease hfind
    have hlease := List.mem_of_find?_eq_some hfind
    obtain ⟨old, hold, hid, hplan⟩ := plansFrom_expireWorkLeases s.leases answers.now lease hlease
    have hfound := List.find?_some hfind
    have hid : old.id = input.leaseId := hid.trans (by simpa using hfound)
    split at hs
    · cases hs
      exact ⟨expired, (fun _ hno => nomatch hno)⟩
    · split at hs
      · cases hs
        exact ⟨leased (plansFrom_finishWorkLease _ _ _ _), (fun _ hno => nomatch hno)⟩
      · rename_i task htask
        split at hs
        · rename_i plan hcontract
          cases hs
          refine ⟨expired, fun admission hadmitted _ => .inl ⟨old, hold, hid, ?_⟩⟩
          obtain rfl := WorkPlanOutcome.admitted.inj hadmitted
          rw [hplan, (Option.filter_eq_some_iff.mp hcontract).1]
          rfl
        · rename_i hopen
          split at hs
          · cases hs
            exact ⟨leased (plansFrom_finishWorkLease _ _ _ _), (fun _ hno => nomatch hno)⟩
          · rename_i submitted hsubmitted
            split at hs
            · split at hs
              · cases hs
                exact ⟨leased (plansFrom_finishWorkLease _ _ _ _), (fun _ hno => nomatch hno)⟩
              · cases hs
                refine ⟨leased (plansFrom_finishWorkLease _ _ _ _),
                  fun admission hadmitted ha => ?_⟩
                obtain rfl := WorkPlanOutcome.admitted.inj hadmitted
                cases ha
              · have hfree : ∀ p, lease.plan = some p → p.admission.approved = false := by
                  intro p hp
                  rw [hp, Option.filter_eq_none_iff] at hopen
                  simpa using hopen p rfl
                obtain ⟨hk, hreview⟩ := keeps_admitSubmitted hb hlease hfree hs
                refine ⟨⟨expired.grown.trans hk.grown, hk.bound⟩, fun admission hadmitted ha =>
                  .inr ⟨old, hold, hid, ?_, task, submitted, (Option.filter_eq_some_iff.mp htask).1,
                    hsubmitted, fun hne => ?_⟩⟩
                · unfold WorkLease.admitted
                  cases hp : old.plan with
                  | none => rfl
                  | some p => exact hfree p (hplan ▸ hp)
                · obtain ⟨runId, saved, hrun, hap⟩ := hreview admission hadmitted ha hne
                  exact ⟨runId, saved, by rw [leaseRun, hplan]; exact hrun, hap⟩
            · cases hs
              exact ⟨leased (plansFrom_finishWorkLease _ _ _ _), (fun _ hno => nomatch hno)⟩

/-! ## Runs -/

inductive Event where
  | submit (input : WorkPlanInput) (answers : Answers)
  /-- A reviewer decides. -/
  | review (approvalId : Nat) (status : ApprovalStatus) (comment : Option String)
  | expire (now : Int)
  /-- A lease is issued, without a plan. -/
  | issue (lease : WorkLease)
  /-- Another operation gives a lease a contract, or replaces the one it has. -/
  | replace (leaseId : String) (contract : WorkLeasePlan)
  | finish (leaseId : String) (status : WorkLeaseStatus) (finishedAt : Int)

def step (admissions : PlanAdmissionController) (s : GateStore) : Event → Option GateStore
  | .submit input answers => some (admitWorkPlan admissions s input answers).1
  | .review approvalId status comment =>
    some { s with approvals := decideApproval s.approvals approvalId status comment }
  | .expire now => some { s with approvals := expireApprovals s.approvals now }
  | .issue lease =>
    if lease.plan.isNone then some { s with leases := s.leases ++ [lease] } else none
  | .replace leaseId contract =>
    if contract.admission.approved then
      some { s with leases := setPlan s.leases leaseId contract }
    else none
  | .finish leaseId status finishedAt =>
    some { s with leases := finishWorkLease s.leases leaseId status finishedAt }

omit [TextRuntime] [Printer] [Lemmatizer] in
theorem extends_decideApproval (s : GateStore) (id : Nat) (status : ApprovalStatus)
    (comment : Option String) :
    Extends s { s with approvals := decideApproval s.approvals id status comment } where
  approvals i approval hi := by
    refine ⟨if i = id ∧ approval.status = .pending then
      { approval with status, decisionComment := comment } else approval, ?_, ?_, fun ha => ?_⟩
    · simp only [decideApproval, List.getElem?_mapIdx, hi, Option.map_some]
    · split <;> rfl
    · rw [if_neg]
      · exact ha
      · rw [ha]
        rintro ⟨-, hpending⟩
        cases hpending
  runs _ _ h := h

theorem bound_step (admissions : PlanAdmissionController) (s : GateStore) (e : Event)
    (t : GateStore) (h : Bound s) (hs : step admissions s e = some t) : Bound t := by
  cases e with
  | submit input answers =>
    cases hs
    exact (keeps_admitWorkPlan h rfl).1.bound
  | review approvalId status comment =>
    cases hs
    exact h.extend (extends_decideApproval ..) fun lease hlease => ⟨lease, hlease, rfl, rfl⟩
  | expire now =>
    cases hs
    exact h.extend (extends_expireApprovals ..) fun lease hlease => ⟨lease, hlease, rfl, rfl⟩
  | issue lease =>
    simp only [step] at hs
    split at hs
    · rename_i hnone
      cases hs
      intro other hother p hp
      rcases List.mem_append.mp hother with hold | hnew
      · exact h other hold p hp
      · obtain rfl := List.mem_singleton.mp hnew
        rw [hp] at hnone
        cases hnone
    · cases hs
  | replace leaseId contract =>
    simp only [step] at hs
    split at hs
    · rename_i happroved
      cases hs
      exact bound_setPlan h (.of_approved happroved)
    · cases hs
  | finish leaseId status finishedAt =>
    cases hs
    exact h.leases (plansFrom_finishWorkLease _ _ _ _)

/-- The plan has an approval requested on its lease for exactly what it asks for. -/
def Reviewed (t : GateStore) (lease : WorkLease) (submitted : RemotePlan) : Prop :=
  ∃ runId saved, leaseRun lease = some runId ∧ Approved t runId saved ∧
    saved.request = submitted.request

/-- It asks for nothing else than the plan the lease's run was opened for. -/
def Repeats (s : GateStore) (lease : WorkLease) (submitted : RemotePlan) : Prop :=
  ∀ runId saved, leaseRun lease = some runId → s.runs[runId]? = some saved →
    saved.request = submitted.request

/-- **What a reviewer approved is what is admitted.** Whatever was submitted before
and however approvals were decided: an answer that lets the worker execute is the
contract its lease had already, or, for a plan the policy gives reasons for, reviewed
exactly when the plan repeats the one its lease's run was opened for. -/
theorem approved_plan_reviewed {admissions : PlanAdmissionController} {s₀ s t : GateStore}
    {events : List Event} {input : WorkPlanInput} {answers : Answers}
    {admission : RemoteAdmission} (h₀ : ∀ lease ∈ s₀.leases, lease.plan = none)
    (hrun : run (step admissions) s₀ events = some s)
    (hs : admitWorkPlan admissions s input answers = (t, .admitted admission))
    (happroved : admission.approved = true) :
    (∃ lease ∈ s.leases, lease.id = input.leaseId ∧
      lease.plan.map WorkLeasePlan.admission = some admission) ∨
    ∃ lease ∈ s.leases, lease.id = input.leaseId ∧ ∃ task submitted,
      answers.task = some task ∧ submittedPlan task input.plan = .ok submitted ∧
      (answers.policy.remotePlanReasons submitted ≠ [] →
        (Reviewed t lease submitted ↔ Repeats s lease submitted)) := by
  have hinit : Bound s₀ := by
    intro lease hlease plan hplan
    rw [h₀ lease hlease] at hplan
    cases hplan
  have hb := run_keeps (bound_step admissions) hinit hrun
  obtain ⟨hk, hadmitted⟩ := keeps_admitWorkPlan hb hs
  rcases hadmitted admission rfl happroved with hecho | hnew
  · exact .inl hecho
  · obtain ⟨lease, hlease, hid, hopen, task, submitted, htask, hsubmitted, hreview⟩ := hnew
    refine .inr ⟨lease, hlease, hid, task, submitted, htask, hsubmitted, fun hne => ?_⟩
    obtain ⟨runId, saved, hleaseRun, hap⟩ := hreview hne
    constructor
    · rintro ⟨runId', saved', hrun', hap', hasks⟩ runId'' saved'' hrun'' hsaved''
      obtain rfl := Option.some.inj (hrun'.symm.trans hrun'')
      obtain rfl := Option.some.inj (hap'.1.symm.trans (hk.grown.runs _ _ hsaved''))
      exact hasks
    · intro hrepeats
      refine ⟨runId, saved, hleaseRun, hap, ?_⟩
      -- the run was there before the submission, with the plan it has after it
      obtain ⟨before, hbefore⟩ : ∃ before, s.runs[runId]? = some before := by
        cases hp : lease.plan with
        | none =>
          rw [leaseRun, hp] at hleaseRun
          cases hleaseRun
        | some p =>
          rw [leaseRun, hp] at hleaseRun
          rw [WorkLease.admitted, hp] at hopen
          exact (hb lease hlease p hp hopen runId hleaseRun).1
      obtain rfl := Option.some.inj (hap.1.symm.trans (hk.grown.runs _ _ hbefore))
      exact hrepeats runId saved hleaseRun hbefore

end

/-! ## A resubmission -/

attribute [local instance] asciiRuntime wholePrinter plainLemmatizer

/-- A project that asks for a person before risky remote plans execute. -/
def attended : ApprovalPolicy where
  enabled := true
  riskLevels := [.high, .critical]
  pathPatterns := []
  timeoutMs := 86400000
  requireSchemaReview := true
  requireRemotePlanReview := true

def migration : RemotePlan where
  taskId := "t"
  objective := "migrate"
  expectedFiles := ["a.ts"]
  expectedSymbols := []
  riskLevel := .high

def widerMigration : RemotePlan := { migration with expectedFiles := ["a.ts", "b.ts"] }

def alone : Answers where
  now := 0
  task := some ⟨"t", "migrate", "agent", true⟩
  repositoryKnown := true
  canonical := .stands 1
  policy := attended
  gateObserved := []
  soloObserved := []
  createId index := toString index
  attempts := []

def issued : GateStore := ⟨[⟨"l", "t", "r", .active, "r1", 10, none⟩], [], []⟩

/-- The plan is submitted and the reviewer approves it. -/
def approvedOnce : List Event :=
  [.submit ⟨"l", migration⟩ alone, .review 0 .approved none]

def afterReview : GateStore := (run (step freshController) issued approvedOnce).getD issued

/-- What the next submission is answered, and the store after it. -/
def resubmitted (plan : RemotePlan) : GateStore × WorkPlanOutcome :=
  admitWorkPlan freshController afterReview ⟨"l", plan⟩ alone

def WorkPlanOutcome.admission? : WorkPlanOutcome → Option RemoteAdmission
  | .admitted admission => some admission
  | _ => none

theorem WorkPlanOutcome.eq_admitted {outcome : WorkPlanOutcome} {admission : RemoteAdmission}
    (h : outcome.admission? = some admission) : outcome = .admitted admission := by
  cases outcome with
  | admitted admission' =>
    obtain rfl := Option.some.inj h
    rfl
  | leaseLost => cases h
  | rejected reason => cases h
  | thrown => cases h

theorem approved_plan_reviewed_again :
    ∃ s t admission, run (step freshController) issued approvedOnce = some s ∧
      admitWorkPlan freshController s ⟨"l", migration⟩ alone = (t, .admitted admission) ∧
      attended.remotePlanReasons migration ≠ [] ∧
      ((∃ lease ∈ s.leases, lease.id = "l" ∧
          lease.plan.map WorkLeasePlan.admission = some admission) ∨
        ∃ lease ∈ s.leases, lease.id = "l" ∧ ∃ task submitted,
          alone.task = some task ∧ submittedPlan task migration = .ok submitted ∧
          (alone.policy.remotePlanReasons submitted ≠ [] →
            (Reviewed t lease submitted ↔ Repeats s lease submitted))) := by
  have hrun : run (step freshController) issued approvedOnce = some afterReview := by
    decide
  obtain ⟨admission, hadmission, happroved⟩ : ∃ admission,
      (resubmitted migration).2.admission? = some admission ∧ admission.approved = true := by
    have : (resubmitted migration).2.admission?.any RemoteAdmission.approved = true := by
      decide
    simpa only [Option.any_eq_true] using this
  have hs : admitWorkPlan freshController afterReview ⟨"l", migration⟩ alone =
      ((resubmitted migration).1, .admitted admission) := by
    rw [← WorkPlanOutcome.eq_admitted hadmission]
    rfl
  exact ⟨afterReview, _, admission, hrun, hs, by decide,
    approved_plan_reviewed (by decide) hrun hs happroved⟩

/-- Another plan submitted after the approval is admitted, and no approval was ever
requested for it. -/
theorem changed_plan_inherits_approval :
    run (step freshController) issued approvedOnce = some afterReview ∧
      (resubmitted widerMigration).2.admission?.any RemoteAdmission.approved = true ∧
      attended.remotePlanReasons widerMigration ≠ [] ∧
      ¬ ∃ approval ∈ (resubmitted widerMigration).1.approvals, approval.status = .approved ∧
        ((resubmitted widerMigration).1.runs[approval.runId]?).map RemotePlan.request =
          some widerMigration.request := by
  decide

end AgenticGit.Cli
