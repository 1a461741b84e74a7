import AgenticGit.Persistence.WorkLeases
import AgenticGit.Coordinator.AdmissionRoutes
import AgenticGit.Coordinator.BranchClaims

/- The whole repository, for a task nobody is competing with:
   `LeasePlanAuthority.claimRepository` (`lease-admission.ts`) and `blanketPlan`
   (`blanket-claim.ts`).

   Whatever it awaits is answered from outside, so `ClaimAnswers` says what was answered; between
   two of them anything may happen.

   Correspondence (TypeScript ↔ Lean):
     a rejected promise                     ↔ `Except.error`
     `listBranchClaims` the store may lack  ↔ `held`, `none` where it does
     `refuse(reason, detail)`               ↔ `BlanketRefusal`, one constructor a reason
     `blanket_claim_granted`, written last  ↔ left out: the plan is saved by then

   What is proved:
     1. `claimRepository_granted` — a grant found no claim that crosses.
     2. `claimRepository_grants` — and where none does, there is a grant.
     3. `blanket_respects_holds_iff` — **whatever a branch moved is respected by every grant
        exactly when the claims could be read and no quiet one holds an interface file.**

   A read that failed is taken for an empty list, and `claimCrossesBranches` reads no file. -/
namespace AgenticGit.Cli
open AgenticGit.Runtime AgenticGit.Shared AgenticGit.Coordinator AgenticGit.Persistence

/-! ## claimRepository -/

/-- What a call of the store is rejected with. -/
structure StoreError where
  message : String
  deriving DecidableEq, Repr

inductive ClaimError where
  | store (error : StoreError)
  | plan (error : AgentPlanError)
  deriving DecidableEq, Repr

structure BlanketClaimRequest where
  taskId : String
  objective : String
  agentId : String
  /-- `baseVersion`. -/
  revision : String
  sequence : Int
  /-- Where the objective said this task would go. -/
  estimatedFiles : List String

/-- What the calls a claim awaits answer, in their order. -/
structure ClaimAnswers where
  expireWorkLeases : Except StoreError Unit
  getWorkLease : Except StoreError (Option WorkLease)
  /-- The active leases of the repository. -/
  listWorkLeases : Except StoreError (List WorkLease)
  /-- The claims of its other branches. -/
  held : Option (Except StoreError (List BranchClaim))
  saveWorkLeasePlan : Except StoreError SaveWorkLeasePlanResult

inductive BlanketRefusal where
  | noLeaseInThisRun
  | leaseNotActive (leaseId : String) (leaseStatus : Option WorkLeaseStatus)
  | alreadyHoldsAPlan (leaseId : String)
  | otherWorkIsExecuting (leaseId : String) (others : Nat) (otherTaskIds : List String)
  | anotherBranchHoldsACrossingClaim (branches : List String) (upstream : Bool)
  | admissionRefused (admission : PlanAdmissionStatus) (blockedBy : List String)
      (explanation : String)
  | lostTheWrite (outcome : SaveWorkLeasePlanResult)

inductive RepositoryClaim where
  /-- The deployment grants none. -/
  | off
  | refused (reason : BlanketRefusal)
  | granted (plan : AgentPlan) (admission : PlanAdmission)

structure LeasePlanAuthority where
  blanketClaims : Bool := true
  leaseIdForTask : List (String × String)
  admissions : PlanAdmissionController

def blanketPlan (request : BlanketClaimRequest) : AgentPlan where
  taskId := request.taskId
  objective := request.objective
  expectedFiles := request.estimatedFiles
  expectedSymbols := []
  intent := some "Repository-wide claim granted without a planning round trip"
  claim := some (.blanket none)

/-- `(await listBranchClaims?.(..).catch(() => [])) ?? []`. -/
def heldClaims : Option (Except StoreError (List BranchClaim)) → List BranchClaim
  | some (.ok claims) => claims
  -- The read failed, and nobody is told.
  | some (.error _) => []
  | none => []

def storeAnswer {α : Type} : Except StoreError α → Except ClaimError α
  | .ok value => .ok value
  | .error error => .error (.store error)

section

variable [TextRuntime] [Printer] [Lemmatizer]

/-- The admission nothing is active beside, and the write. -/
def grantRepository (self : LeasePlanAuthority) (request : BlanketClaimRequest)
    (answers : ClaimAnswers) : Except ClaimError RepositoryClaim :=
  let plan := blanketPlan request
  match self.admissions.admitPlan
      { plan, agentId := request.agentId, baseRevision := request.revision
        baseVersion := request.sequence, active := [], planRevision := some 1 } with
  | .error error => .error (.plan error)
  | .ok admission =>
    if planAdmissionApproved admission then do
      match ← storeAnswer answers.saveWorkLeasePlan with
      | .saved _ => return .granted plan admission
      | outcome => return .refused (.lostTheWrite outcome)
    else .ok (.refused (.admissionRefused admission.status admission.blockedBy
      admission.explanation))

/-- What `claimRepository` asks of a lease that is active and holds no plan. -/
def claimForLease (self : LeasePlanAuthority) (request : BlanketClaimRequest)
    (answers : ClaimAnswers) (lease : WorkLease) : Except ClaimError RepositoryClaim := do
  let leases ← storeAnswer answers.listWorkLeases
  let others := leases.filter fun candidate => candidate.id ≠ lease.id
  if 0 < others.length then
    return .refused (.otherWorkIsExecuting lease.id others.length
      ((others.take 10).map WorkLease.taskId))
  else
    let crossing := (heldClaims answers.held).filter claimCrossesBranches
    if 0 < crossing.length then
      return .refused (.anotherBranchHoldsACrossingClaim
        ((crossing.take 10).map BranchClaim.branch)
        (crossing.any fun claim => "origin/".toList.isPrefixOf claim.branch.toList))
    else grantRepository self request answers

/-- The whole repository, for a task nobody is competing with. -/
def claimRepository (self : LeasePlanAuthority) (request : BlanketClaimRequest)
    (answers : ClaimAnswers) : Except ClaimError RepositoryClaim :=
  if self.blanketClaims = false then .ok .off
  else
    match self.leaseIdForTask.lookup request.taskId with
    | none => .ok (.refused .noLeaseInThisRun)
    | some leaseId => do
      storeAnswer answers.expireWorkLeases
      match ← storeAnswer answers.getWorkLease with
      | none => return .refused (.leaseNotActive leaseId none)
      | some lease =>
        if lease.status ≠ .active then
          return .refused (.leaseNotActive leaseId (some lease.status))
        else if lease.plan.isSome then return .refused (.alreadyHoldsAPlan lease.id)
        else claimForLease self request answers lease

/-! ## What a grant found -/

/-- **A grant found no claim that crosses.** -/
theorem claimRepository_granted {self : LeasePlanAuthority} {request : BlanketClaimRequest}
    {answers : ClaimAnswers} {plan : AgentPlan} {admission : PlanAdmission}
    (h : claimRepository self request answers = .ok (.granted plan admission)) :
    ∀ claim ∈ heldClaims answers.held, claimCrossesBranches claim = false := by
  unfold claimRepository at h
  split at h
  · cases h
  split at h
  · cases h
  obtain ⟨-, -, h⟩ := except_bind_ok h
  obtain ⟨lease, -, h⟩ := except_bind_ok h
  split at h
  · cases h
  split at h
  · cases h
  split at h
  · cases h
  obtain ⟨leases, -, h⟩ := except_bind_ok h
  dsimp only at h
  split at h
  · cases h
  split at h
  · cases h
  · rename_i hnone
    intro claim hclaim
    by_contra hcross
    refine hnone (List.length_pos_of_mem (List.mem_filter.mpr ⟨hclaim, ?_⟩))
    exact eq_true_of_ne_false hcross

end

/-! ## A task on its own -/

def loneRequest : BlanketClaimRequest where
  taskId := "task"
  objective := "sweep"
  agentId := "agent"
  revision := "r1"
  sequence := 1
  estimatedFiles := []

def loneLease : WorkLease where
  id := "lease"
  taskId := "task"
  repositoryId := "repository"
  status := .active
  baseRevision := "r1"
  expiresAt := 1

/-- Nothing stands in its way but the claims of other branches. -/
def loneAnswers (held : Option (Except StoreError (List BranchClaim))) : ClaimAnswers where
  expireWorkLeases := .ok ()
  getWorkLease := .ok (some loneLease)
  listWorkLeases := .ok [loneLease]
  held
  saveWorkLeasePlan := .ok (.saved loneLease)

/-- The claims could be read: the store has them, or keeps none. -/
def Readable (held : Option (Except StoreError (List BranchClaim))) : Prop :=
  ∀ error, held ≠ some (.error error)

section

variable [TextRuntime]

/-- A task with a lease of its own, alone in the repository. -/
def loneAuthority : LeasePlanAuthority where
  leaseIdForTask := [("task", "lease")]
  admissions := freshController

/-- The claims were read, and what the planned path would keep of each of them the branch
did not move. -/
def Respected (symbols : SymbolVisibility)
    (held : Option (Except StoreError (List BranchClaim))) : Prop :=
  Readable held ∧ ∀ claim ∈ heldClaims held, ∀ entry ∈ branchClaimsAsActivePlans [claim],
    ∀ shared, interfaceScopeOf entry.plan symbols = .ok (some shared) →
      ∀ type, ∀ name ∈ shared.names .expected type, NotMoved claim type name

/-- The claim makes a plan, and the plan names a file that is an interface. -/
def HoldsInterfaceFile (claim : BranchClaim) : Prop :=
  claim.taskId ≠ "" ∧ ∃ files, claim.interfaceFiles = .ok files ∧ files ≠ []

variable [Printer] [Lemmatizer]

theorem admitPlan_lone : ∃ admission, loneAuthority.admissions.admitPlan
    { plan := blanketPlan loneRequest, agentId := loneRequest.agentId
      baseRevision := loneRequest.revision, baseVersion := loneRequest.sequence, active := []
      planRevision := some 1 } = .ok admission ∧ planAdmissionApproved admission = true :=
  ⟨_, rfl, rfl⟩

/-- **Where no claim crosses, a lone task is granted the repository.** -/
theorem claimRepository_grants {held : Option (Except StoreError (List BranchClaim))}
    (h : ∀ claim ∈ heldClaims held, claimCrossesBranches claim = false) :
    ∃ plan admission, claimRepository loneAuthority loneRequest (loneAnswers held) =
      .ok (.granted plan admission) := by
  have hnone : (heldClaims held).filter claimCrossesBranches = [] := by
    rw [List.filter_eq_nil_iff]
    intro claim hclaim
    rw [h claim hclaim]
    exact Bool.false_ne_true
  obtain ⟨admission, hadmission, happroved⟩ := admitPlan_lone
  have hgrant : grantRepository loneAuthority loneRequest (loneAnswers held) =
      .ok (.granted (blanketPlan loneRequest) admission) := by
    simp only [grantRepository, hadmission, happroved, if_true]
    rfl
  refine ⟨blanketPlan loneRequest, admission, ?_⟩
  rw [← hgrant]
  show claimForLease loneAuthority loneRequest (loneAnswers held) loneLease = _
  show (if 0 < ((heldClaims held).filter claimCrossesBranches).length then _ else _) = _
  rw [hnone]
  rfl

/-! ## What the branches moved -/

/-- **A blanket claim respects what other branches hold exactly when their claims could be
read and, unless one of them crosses, none holds a file that is an interface.** -/
theorem blanket_respects_holds_iff {symbols : SymbolVisibility}
    {held : Option (Except StoreError (List BranchClaim))}
    (hm : ∀ claim ∈ heldClaims held, Measured symbols claim) :
    (∀ self request answers plan admission, answers.held = held →
      claimRepository self request answers = .ok (.granted plan admission) →
        Respected symbols held) ↔
      Readable held ∧ ((∃ claim ∈ heldClaims held, claimCrossesBranches claim = true) ∨
        ∀ claim ∈ heldClaims held, ¬HoldsInterfaceFile claim) := by
  constructor
  · intro h
    by_cases hcrosses : ∃ claim ∈ heldClaims held, claimCrossesBranches claim = true
    · refine ⟨?_, .inl hcrosses⟩
      rintro error rfl
      obtain ⟨claim, hclaim, -⟩ := hcrosses
      cases hclaim
    · have hquiet : ∀ claim ∈ heldClaims held, claimCrossesBranches claim = false :=
        fun claim hclaim => eq_false_of_ne_true fun hcross => hcrosses ⟨claim, hclaim, hcross⟩
      obtain ⟨plan, admission, hgranted⟩ := claimRepository_grants hquiet
      obtain ⟨hreadable, hrespected⟩ := h _ _ _ plan admission rfl hgranted
      refine ⟨hreadable, .inr fun claim hclaim ⟨htask, files, hfiles, hne⟩ => ?_⟩
      obtain ⟨file, hfile⟩ := List.exists_mem_of_ne_nil files hne
      obtain ⟨shared, hshared, hkept⟩ := interfaceFiles_kept symbols htask hfiles hfile
      exact (file_moved hshared hkept).2
        (hrespected claim hclaim _ (List.mem_singleton.mpr rfl) shared hshared .file file hkept)
  · rintro ⟨hreadable, hquiet⟩ self request answers plan admission rfl hgranted
    have hcrosses := claimRepository_granted hgranted
    refine ⟨hreadable, fun claim hclaim entry hentry shared hshared type name hname => ?_⟩
    obtain rfl := List.mem_singleton.mp hentry
    by_cases hfile : type = .file
    · subst hfile
      rcases hquiet with ⟨other, hother, hcross⟩ | hquiet
      · rw [hcrosses other hother] at hcross
        cases hcross
      · obtain ⟨⟨files, hfiles, hmem⟩, -⟩ := file_moved hshared hname
        have hschema := (assertAgentPlan_ok (interfaceScopeOf_some hshared)).1
        simp only [matchesSchema, Bool.and_eq_true, decide_eq_true_eq] at hschema
        exact absurd ⟨hschema.1.1.1, files, hfiles, List.ne_nil_of_mem hmem⟩ (hquiet claim hclaim)
    · exact notMoved_of_not_crosses (hm claim hclaim) (hcrosses claim hclaim) hshared hfile hname

end

/-- A branch that edited a file with a route and an exported function, and moved neither. -/
def sessionClaim : BranchClaim where
  branch := "login"
  taskId := "login"
  symbols := ["issueToken"]
  apis := ["POST /session"]
  movedResources := some {}
  ranges := [⟨"src/session.ts"⟩]
  shapes := [⟨"issueToken", some false⟩]

attribute [local instance] asciiRuntime wholePrinter plainLemmatizer

theorem sessionClaim_measured : Measured ⟨["issuetoken"], ["issuetoken"]⟩ sessionClaim := by
  refine ⟨rfl, ?_, ?_, ?_⟩
  · decide
  · intro name hname _
    obtain rfl := List.mem_singleton.mp hname
    exact ⟨_, List.mem_singleton.mpr rfl, rfl⟩
  · intro name hname
    obtain rfl := List.mem_singleton.mp hname
    decide

theorem blanket_respects_holds_login :
    Respected ⟨["issuetoken"], ["issuetoken"]⟩ (some (.ok [sessionClaim])) := by
  have hfiles : sessionClaim.interfaceFiles = .ok [] := by decide
  have hquiet : ∀ claim ∈ [sessionClaim], ¬HoldsInterfaceFile claim := by
    rintro claim hclaim ⟨-, files, hother, hne⟩
    obtain rfl := List.mem_singleton.mp hclaim
    rw [hfiles] at hother
    exact hne (Except.ok.inj hother).symm
  have hmeasured : ∀ claim ∈ heldClaims (some (.ok [sessionClaim])),
      Measured ⟨["issuetoken"], ["issuetoken"]⟩ claim := by
    intro claim hclaim
    obtain rfl := List.mem_singleton.mp hclaim
    exact sessionClaim_measured
  obtain ⟨plan, admission, hgranted⟩ := @claimRepository_grants _ _ _
    (some (.ok [sessionClaim])) (by decide)
  exact (blanket_respects_holds_iff hmeasured).mpr ⟨fun error h => (by cases h), .inr hquiet⟩
    loneAuthority loneRequest (loneAnswers (some (.ok [sessionClaim]))) plan admission rfl hgranted

/-! ## A migration nobody reads -/

/-- A branch that added a migration, and nothing else. -/
def migrationClaim : BranchClaim where
  branch := "payments"
  taskId := "payments"
  movedResources := some {}
  ranges := [⟨"db/migrations/003_sessions.sql"⟩]

theorem migrationClaim_measured : Measured ⟨[], []⟩ migrationClaim where
  resources := rfl
  shapes := by simp [migrationClaim]
  exported := by simp [migrationClaim]
  known := by simp [migrationClaim]

/-- The repository is granted beside a branch with a migration, and when the claims cannot
be read. -/
theorem migration_overruled :
    (Measured ⟨[], []⟩ migrationClaim ∧
      (∃ plan admission, claimRepository loneAuthority loneRequest
        (loneAnswers (some (.ok [migrationClaim]))) = .ok (.granted plan admission)) ∧
      ∃ shared, interfaceScopeOf migrationClaim.plan ⟨[], []⟩ = .ok (some shared) ∧
        "db/migrations/003_sessions.sql" ∈ shared.expectedFiles ∧
        ¬NotMoved migrationClaim .file "db/migrations/003_sessions.sql") ∧
      ∃ plan admission, claimRepository loneAuthority loneRequest
        (loneAnswers (some (.error ⟨"database is locked"⟩))) = .ok (.granted plan admission) := by
  refine ⟨⟨migrationClaim_measured, claimRepository_grants (by decide), ?_⟩,
    claimRepository_grants (by decide)⟩
  have hfiles : migrationClaim.interfaceFiles = .ok ["db/migrations/003_sessions.sql"] := by
    decide
  obtain ⟨shared, hshared, hkept⟩ := interfaceFiles_kept ⟨[], []⟩ (by decide) hfiles
    (List.mem_singleton.mpr rfl)
  exact ⟨shared, hshared, hkept, (file_moved hshared hkept).2⟩

end AgenticGit.Cli
