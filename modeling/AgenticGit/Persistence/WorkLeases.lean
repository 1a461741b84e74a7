import AgenticGit.Shared.RemotePlan

/- The plan on a work lease and its end: `saveWorkLeasePlan` and the leases' part of
   `finishWorkLease` and `expireWorkLeases` of `sqlite-store.ts`, with the
   comparison of `store.ts` that every backend shares.

   What is proved:
     1. `saveWorkLeasePlan_saved` — a plan is saved on an active lease only, over
        an approved one only when asked to, and only when the other leases that
        carry an approved plan are the ones the caller observed.
     2. `saveWorkLeasePlan_other` — any other answer leaves the table alone.
     3. `plansFrom_finishWorkLease` — a lease that ends keeps its plan.

   Correspondence (TypeScript ↔ Lean):
     the rows of `work_leases`       ↔ `List WorkLease`; times are numbers
     the transaction around the method ↔ the function is one step -/
namespace AgenticGit.Persistence
open AgenticGit.Runtime AgenticGit.Shared

inductive WorkLeaseStatus where
  | active | completed | failed | expired | released
  deriving DecidableEq, Repr

structure WorkLeasePlan where
  plan : RemotePlan
  admission : RemoteAdmission
  deriving DecidableEq, Repr

structure WorkLease where
  id : String
  taskId : String
  repositoryId : String
  status : WorkLeaseStatus
  /-- Canonical revision the worker must build its workspace from. -/
  baseRevision : String
  expiresAt : Int
  /-- Set once the worker submits a plan and the coordinator answers it. -/
  plan : Option WorkLeasePlan := none
  deriving DecidableEq, Repr

def WorkLease.admitted (lease : WorkLease) : Bool :=
  lease.plan.any fun plan => plan.admission.approved

structure SaveWorkLeasePlanInput where
  leaseId : String
  submission : WorkLeasePlan
  /-- The other leases with an approved plan when the admission was decided. -/
  observedApprovedLeaseIds : List String
  /-- Replace an approved contract instead of refusing to. -/
  replaceApproved : Option Bool := none

def sameLeaseIdSet (first second : List String) : Bool :=
  first.length = second.length && sortStrings first = sortStrings second

inductive SaveWorkLeasePlanResult where
  | saved (lease : WorkLease)
  | alreadyAdmitted (lease : WorkLease)
  | stale (approvedLeaseIds : List String)
  | leaseLost
  deriving DecidableEq, Repr

/-- Other active leases in one repository whose plan was admitted. -/
def approvedPlanLeaseIds (leases : List WorkLease) (repositoryId excludeLeaseId : String) :
    List String :=
  sortStrings ((leases.filter fun lease =>
    lease.repositoryId = repositoryId && lease.status = .active && lease.id ≠ excludeLeaseId &&
      lease.admitted).map WorkLease.id)

/-- `UPDATE work_leases SET plan_json = ? WHERE id = ?`. -/
def setPlan (leases : List WorkLease) (id : String) (submission : WorkLeasePlan) :
    List WorkLease :=
  leases.map fun lease => if lease.id = id then { lease with plan := some submission } else lease

def saveWorkLeasePlan (leases : List WorkLease) (input : SaveWorkLeasePlanInput) :
    List WorkLease × SaveWorkLeasePlanResult :=
  match leases.find? fun lease => lease.id = input.leaseId && lease.status = .active with
  | none => (leases, .leaseLost)
  | some lease =>
    if input.replaceApproved ≠ some true ∧ lease.admitted = true then
      (leases, .alreadyAdmitted lease)
    else
      let approvedLeaseIds := approvedPlanLeaseIds leases lease.repositoryId lease.id
      if sameLeaseIdSet approvedLeaseIds input.observedApprovedLeaseIds then
        (setPlan leases lease.id input.submission,
          .saved { lease with plan := some input.submission })
      else (leases, .stale approvedLeaseIds)

variable {input : SaveWorkLeasePlanInput}

theorem saveWorkLeasePlan_saved {leases leases' : List WorkLease} {saved : WorkLease}
    (h : saveWorkLeasePlan leases input = (leases', .saved saved)) :
    ∃ lease ∈ leases, lease.id = input.leaseId ∧ lease.status = .active ∧
      (input.replaceApproved ≠ some true → lease.admitted = false) ∧
      sameLeaseIdSet (approvedPlanLeaseIds leases lease.repositoryId lease.id)
        input.observedApprovedLeaseIds = true ∧
      leases' = setPlan leases input.leaseId input.submission := by
  simp only [saveWorkLeasePlan] at h
  split at h
  · cases h
  · rename_i lease hfind
    have hlease := List.find?_some hfind
    simp only [Bool.and_eq_true, decide_eq_true_eq] at hlease
    split at h
    · cases h
    · rename_i hfree
      split at h
      · rename_i hsame
        refine ⟨lease, List.mem_of_find?_eq_some hfind, hlease.1, hlease.2, ?_, hsame, ?_⟩
        · intro hnot
          simpa using fun hadmitted => hfree ⟨hnot, hadmitted⟩
        · rw [← hlease.1]
          exact (congrArg Prod.fst h).symm
      · cases h

theorem saveWorkLeasePlan_other {leases leases' : List WorkLease} {result : SaveWorkLeasePlanResult}
    (h : saveWorkLeasePlan leases input = (leases', result)) (hr : ∀ lease, result ≠ .saved lease) :
    leases' = leases := by
  simp only [saveWorkLeasePlan] at h
  split at h
  · exact (congrArg Prod.fst h).symm
  · split at h
    · exact (congrArg Prod.fst h).symm
    · split at h
      · exact absurd (congrArg Prod.snd h).symm (hr _)
      · exact (congrArg Prod.fst h).symm

theorem mem_setPlan {leases : List WorkLease} {id : String} {submission : WorkLeasePlan}
    {lease : WorkLease} (h : lease ∈ setPlan leases id submission) :
    (lease.id = id ∧ lease.plan = some submission) ∨ (lease.id ≠ id ∧ lease ∈ leases) := by
  obtain ⟨old, hold, rfl⟩ := List.mem_map.mp h
  split
  · rename_i hid
    exact .inl ⟨hid, rfl⟩
  · rename_i hid
    exact .inr ⟨hid, hold⟩

/-! ## The end of a lease -/

/-- Ends an active lease: as expired once it has lapsed, otherwise while it has not. -/
def finishWorkLease (leases : List WorkLease) (id : String) (status : WorkLeaseStatus)
    (finishedAt : Int) : List WorkLease :=
  leases.map fun lease =>
    if lease.id = id ∧ lease.status = .active ∧
        (if status = .expired then lease.expiresAt ≤ finishedAt
          else finishedAt < lease.expiresAt) then
      { lease with status }
    else lease

def expireWorkLeases (leases : List WorkLease) (now : Int) : List WorkLease :=
  leases.map fun lease =>
    if lease.status = .active ∧ lease.expiresAt ≤ now then { lease with status := .expired }
    else lease

/-- Every plan in the table is the one its lease had before. -/
def PlansFrom (leases leases' : List WorkLease) : Prop :=
  ∀ lease ∈ leases', ∃ old ∈ leases, old.id = lease.id ∧ old.plan = lease.plan

theorem plansFrom_finishWorkLease (leases : List WorkLease) (id : String)
    (status : WorkLeaseStatus) (finishedAt : Int) :
    PlansFrom leases (finishWorkLease leases id status finishedAt) := by
  intro lease hlease
  obtain ⟨old, hold, rfl⟩ := List.mem_map.mp hlease
  exact ⟨old, hold, by simp only [apply_ite WorkLease.id, ite_self],
    by simp only [apply_ite WorkLease.plan, ite_self]⟩

theorem plansFrom_expireWorkLeases (leases : List WorkLease) (now : Int) :
    PlansFrom leases (expireWorkLeases leases now) := by
  intro lease hlease
  obtain ⟨old, hold, rfl⟩ := List.mem_map.mp hlease
  exact ⟨old, hold, by simp only [apply_ite WorkLease.id, ite_self],
    by simp only [apply_ite WorkLease.plan, ite_self]⟩

end AgenticGit.Persistence
