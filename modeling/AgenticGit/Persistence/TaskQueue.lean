import Mathlib.Logic.Function.Basic
import AgenticGit.Persistence.WorkLeases

/- The queue: submitted tasks and the work leases on them, each method of
   `sqlite-store.ts` that writes either as one atomic step.

   Correspondence (TypeScript ↔ Lean):
     the rows of `submitted_tasks`           ↔ `tasks`, by id
     the rows of `work_leases`               ↔ `leases`
     `UPDATE .. SET status = ? WHERE id = ? AND status IN (..)` ↔ `QueueStore.update`
     the index `work_leases_one_active`      ↔ the error of `leaseNextTask`
     the row a `SELECT` picks by age, kind, owner and predecessor ↔ an argument
   `claimedUnder` is not a column: it records which lease the last claim of a task
   was made under, for the statements. Other columns are left out.

   What is proved:
     1. `later_finishWorkLease`, `later_expireWorkLeases`,
        `later_heartbeatWorkLease` — no method but `leaseNextTask` adds a lease
        or gives one back its `active`.
     2. `finishWorkLease_true` — what the end of a lease does to its task, and to no
        other.
     3. `leaseNextTask_cases` — a task is handed out under a lease of its own, or
        nothing but the expiry happens. -/
namespace AgenticGit.Persistence

inductive SubmittedTaskStatus where
  | submitted | claimed | planned | paused | open | integrated | failed | cancelled
  deriving DecidableEq, Repr

structure SubmittedTask where
  status : SubmittedTaskStatus
  /-- The lease its last claim was made under; none for a claim without a lease. -/
  claimedUnder : Option String := none
  deriving DecidableEq, Repr

structure QueueStore where
  tasks : String → Option SubmittedTask := fun _ => none
  leases : List WorkLease := []

namespace QueueStore

/-! ## Tasks -/

/-- A row rewritten when its status is among the given ones. -/
def move (among : List SubmittedTaskStatus) (status : SubmittedTaskStatus)
    (task : SubmittedTask) : SubmittedTask :=
  if task.status ∈ among then { task with status } else task

/-- The rows at some ids, rewritten when their status is among the given ones. -/
def updateWhere (s : QueueStore) (ids : String → Bool) (among : List SubmittedTaskStatus)
    (status : SubmittedTaskStatus) : QueueStore :=
  { s with tasks := fun id => (s.tasks id).map fun task =>
      if ids id then move among status task else task }

def update (s : QueueStore) (id : String) (among : List SubmittedTaskStatus)
    (status : SubmittedTaskStatus) : QueueStore :=
  s.updateWhere (fun i => i = id) among status

/-- Whether an `UPDATE` with this condition changes a row. -/
def changes (s : QueueStore) (id : String) (among : List SubmittedTaskStatus) : Bool :=
  (s.tasks id).any fun task => task.status ∈ among

/-- A new row; with it the open turns of its conversation are settled. -/
def submitTask (s : QueueStore) (id : String) (planOnly : Bool) (openTurns : List String) :
    QueueStore :=
  let settled := s.updateWhere (fun i => i ∈ openTurns) [.open] .integrated
  { settled with
    tasks := Function.update settled.tasks id (some ⟨if planOnly then .planned else .submitted, none⟩) }

/-- Claims queued rows for a run that holds no leases. -/
def claimSubmittedTasks (s : QueueStore) (ids : List String) : QueueStore :=
  { s with tasks := fun id => (s.tasks id).map fun task =>
      if id ∈ ids ∧ task.status = .submitted then ⟨.claimed, none⟩ else task }

/-- The store's methods throw when no row changes; those that answer `undefined`
instead are given the same form. -/
def retrySubmittedTask (s : QueueStore) (id : String) : Option QueueStore :=
  if s.changes id [.claimed, .failed] then some (s.update id [.claimed, .failed] .submitted)
  else none

def cancelSubmittedTask (s : QueueStore) (id : String) : Option QueueStore :=
  if s.changes id [.submitted, .claimed, .planned, .open, .paused] then
    some (s.update id [.submitted, .claimed, .planned, .open, .paused] .cancelled)
  else none

def pauseSubmittedTask (s : QueueStore) (id : String) : Option QueueStore :=
  if s.changes id [.submitted, .claimed] then some (s.update id [.submitted, .claimed] .paused)
  else none

def resumePausedTask (s : QueueStore) (id : String) : Option QueueStore :=
  if s.changes id [.paused] then some (s.update id [.paused] .submitted) else none

def releasePlannedTask (s : QueueStore) (id : String) : Option QueueStore :=
  if s.changes id [.planned] then some (s.update id [.planned] .submitted) else none

/-- `SubmittedTaskCompletionStatus`. -/
inductive Completion where
  | integrated | failed | cancelled
  deriving DecidableEq, Repr

def Completion.status : Completion → SubmittedTaskStatus
  | .integrated => .integrated
  | .failed => .failed
  | .cancelled => .cancelled

def completeSubmittedTask (s : QueueStore) (id : String) (status : Completion) :
    Option QueueStore :=
  if s.changes id [.claimed] then some (s.update id [.claimed] status.status) else none

def openSubmittedTask (s : QueueStore) (id : String) : Option QueueStore :=
  if s.changes id [.claimed] then some (s.update id [.claimed] .open) else none

def expireOpenTasks (s : QueueStore) (ids : List String) : QueueStore :=
  s.updateWhere (fun i => i ∈ ids) [.open] .integrated

/-! ## Leases -/

def lease? (s : QueueStore) (id : String) : Option WorkLease :=
  s.leases.find? fun lease => lease.id = id

def heartbeatWorkLease (s : QueueStore) (id : String) (heartbeatAt expiresAt : Int) : QueueStore :=
  if expiresAt ≤ heartbeatAt then s
  else
    { s with leases := s.leases.map fun lease =>
        if lease.id = id ∧ lease.status = .active ∧ heartbeatAt < lease.expiresAt then
          { lease with expiresAt }
        else lease }

/-- Whether a lease can be ended so: as expired once it has lapsed, otherwise while it
has not. -/
def canFinish (lease : WorkLease) (status : WorkLeaseStatus) (finishedAt : Int) : Bool :=
  if status = .expired then lease.expiresAt ≤ finishedAt else finishedAt < lease.expiresAt

/-- Ends an active lease. A released or expired one returns its task to the queue; a
settled one leaves it to the caller. -/
def finishWorkLease (s : QueueStore) (id : String) (status : WorkLeaseStatus)
    (finishedAt : Int) : QueueStore × Bool :=
  match s.leases.find? fun lease => lease.id = id && lease.status = .active with
  | none => (s, false)
  | some lease =>
    if canFinish lease status finishedAt then
      let ended :=
        { s with leases := Persistence.finishWorkLease s.leases id status finishedAt }
      (if status = .released ∨ status = .expired then
        ended.update lease.taskId [.claimed] .submitted else ended, true)
    else (s, false)

/-- Whether a task has an active lease that has lapsed. -/
def lapsed (s : QueueStore) (now : Int) (taskId : String) : Bool :=
  s.leases.any fun lease =>
    lease.status = .active && lease.expiresAt ≤ now && lease.taskId = taskId

def expireWorkLeases (s : QueueStore) (now : Int) : QueueStore :=
  { s.updateWhere (s.lapsed now) [.claimed] .submitted with
    leases := Persistence.expireWorkLeases s.leases now }

def leased (s : QueueStore) (taskId : String) : Bool :=
  s.leases.any fun lease => lease.status = .active && lease.taskId = taskId

/-- Hands the row the `SELECT` picked to a worker: `lease` is the row inserted. It
throws on a second active lease, and then changes nothing. -/
def leaseNextTask (s : QueueStore) (now : Int) (lease : WorkLease) : Option QueueStore :=
  let s := s.expireWorkLeases now
  match s.tasks lease.taskId with
  | some task =>
    if task.status = .submitted then
      if s.leased lease.taskId then none
      else
        some { s with
          tasks := Function.update s.tasks lease.taskId (some ⟨.claimed, some lease.id⟩)
          leases := s.leases ++ [lease] }
    else some s
  | none => some s

/-! ## What the methods do -/

theorem getD_update (s : QueueStore) (id : String) (among : List SubmittedTaskStatus)
    (status : SubmittedTaskStatus) :
    (if s.changes id among = true then some (s.update id among status) else none).getD s =
      s.update id among status := by
  by_cases h : s.changes id among = true
  · rw [if_pos h]
    rfl
  · rw [if_neg h]
    refine congrArg (fun tasks => ({ tasks, leases := s.leases } : QueueStore)) (funext fun i => ?_)
    cases htask : s.tasks i with
    | none => rfl
    | some task =>
      simp only [Option.map_some, decide_eq_true_eq]
      split
      · rename_i hi
        cases hi
        have hout : task.status ∉ among := by simpa [changes, htask] using h
        rw [move, if_neg hout]
      · rfl

variable {s s' : QueueStore} {finishedAt : Int} {now : Int}

theorem completeSubmittedTask_some {id : String} {status : Completion}
    (h : s.completeSubmittedTask id status = some s') :
    s.changes id [.claimed] = true ∧ s' = s.update id [.claimed] status.status := by
  obtain ⟨hchanges, h⟩ := Option.ite_none_right_eq_some.mp h
  exact ⟨hchanges, (Option.some.inj h).symm⟩

theorem retrySubmittedTask_some {id : String} (h : s.retrySubmittedTask id = some s') :
    s.changes id [.claimed, .failed] = true ∧ s' = s.update id [.claimed, .failed] .submitted := by
  obtain ⟨hchanges, h⟩ := Option.ite_none_right_eq_some.mp h
  exact ⟨hchanges, (Option.some.inj h).symm⟩

/-- What a write that ends leases or extends them does to a row. -/
structure Follows (old new : WorkLease) : Prop where
  id : new.id = old.id
  taskId : new.taskId = old.taskId
  status : new.status = old.status ∨ old.status = .active

theorem Follows.active {old new : WorkLease} (h : Follows old new) (hnew : new.status = .active) :
    old.status = .active := by
  rcases h.status with hsame | hold
  · rw [← hsame, hnew]
  · exact hold

theorem follows_ite (p : Prop) [Decidable p] {old new : WorkLease} (h : p → Follows old new) :
    Follows old (if p then new else old) := by
  by_cases hp : p
  · rw [if_pos hp]
    exact h hp
  · rw [if_neg hp]
    exact ⟨rfl, rfl, .inl rfl⟩

def Later (s s' : QueueStore) : Prop :=
  ∃ f : WorkLease → WorkLease, (∀ lease, Follows lease (f lease)) ∧ s'.leases = s.leases.map f

theorem later_of_eq (h : s'.leases = s.leases) : Later s s' := by
  refine ⟨id, ?_, ?_⟩
  · intro lease
    exact ⟨rfl, rfl, .inl rfl⟩
  · rw [List.map_id, h]

theorem later_update (s : QueueStore) (id : String) (among : List SubmittedTaskStatus)
    (status : SubmittedTaskStatus) : Later s (s.update id among status) :=
  later_of_eq rfl

theorem later_heartbeatWorkLease (s : QueueStore) (id : String) (heartbeatAt expiresAt : Int) :
    Later s (s.heartbeatWorkLease id heartbeatAt expiresAt) := by
  simp only [heartbeatWorkLease]
  split
  · exact later_of_eq rfl
  · refine ⟨_, ?_, rfl⟩
    intro lease
    exact follows_ite _ fun _ => ⟨rfl, rfl, .inl rfl⟩

theorem finishWorkLease_false {id : String} {status : WorkLeaseStatus}
    (h : s.finishWorkLease id status finishedAt = (s', false)) : s' = s := by
  simp only [finishWorkLease] at h
  split at h
  · exact (congrArg Prod.fst h).symm
  · split at h
    · cases h
    · exact (congrArg Prod.fst h).symm

/-- The lease was active; it is ended, and its task goes back to the queue when the end
is a release or an expiry. -/
theorem finishWorkLease_true {id : String} {status : WorkLeaseStatus}
    (h : s.finishWorkLease id status finishedAt = (s', true)) :
    ∃ lease ∈ s.leases, lease.id = id ∧ lease.status = .active ∧
      canFinish lease status finishedAt = true ∧
      s'.leases = Persistence.finishWorkLease s.leases id status finishedAt ∧
      s'.tasks =
        (if status = .released ∨ status = .expired then
          s.update lease.taskId [.claimed] .submitted else s).tasks := by
  simp only [finishWorkLease] at h
  split at h
  · cases h
  · rename_i lease hfind
    have hlease := List.find?_some hfind
    simp only [Bool.and_eq_true, decide_eq_true_eq] at hlease
    split at h
    · rename_i hcan
      refine ⟨lease, List.mem_of_find?_eq_some hfind, hlease.1, hlease.2, hcan, ?_, ?_⟩
      · cases h
        split
        · rfl
        · rfl
      · cases h
        split
        · rfl
        · rfl
    · cases h

theorem finishWorkLease_ended {id : String} {status : WorkLeaseStatus}
    (h : s.finishWorkLease id status finishedAt = (s', true)) :
    ∃ lease ∈ s'.leases, lease.id = id ∧ lease.status = status := by
  obtain ⟨lease, hlease, hid, hactive, hcan, hleases, _⟩ := finishWorkLease_true h
  refine ⟨{ lease with status }, ?_, hid, rfl⟩
  rw [hleases]
  refine List.mem_map.mpr ⟨lease, hlease, if_pos ⟨hid, hactive, ?_⟩⟩
  simpa [canFinish, apply_ite] using hcan

theorem later_finishWorkLease (s : QueueStore) (id : String) (status : WorkLeaseStatus)
    (finishedAt : Int) : Later s (s.finishWorkLease id status finishedAt).1 := by
  cases h : s.finishWorkLease id status finishedAt with
  | mk s' done =>
    cases done with
    | false => exact later_of_eq (by rw [finishWorkLease_false h])
    | true =>
      obtain ⟨_, _, _, _, _, hleases, _⟩ := finishWorkLease_true h
      refine ⟨_, ?_, hleases⟩
      intro lease
      exact follows_ite _ fun hended => ⟨rfl, rfl, .inr hended.2.1⟩

theorem later_expireWorkLeases (s : QueueStore) (now : Int) :
    Later s (s.expireWorkLeases now) := by
  refine ⟨_, ?_, rfl⟩
  intro lease
  exact follows_ite _ fun hended => ⟨rfl, rfl, .inr hended.1⟩

theorem lapsed_iff {s : QueueStore} {taskId : String} : s.lapsed now taskId = true ↔
      ∃ lease ∈ s.leases, lease.status = .active ∧ lease.expiresAt ≤ now ∧ lease.taskId = taskId := by
  simp only [lapsed, List.any_eq_true, Bool.and_eq_true, decide_eq_true_eq, and_assoc]

theorem leased_iff {s : QueueStore} {taskId : String} :
    s.leased taskId = true ↔
      ∃ lease ∈ s.leases, lease.status = .active ∧ lease.taskId = taskId := by
  simp only [leased, List.any_eq_true, Bool.and_eq_true, decide_eq_true_eq]

theorem leaseNextTask_cases {lease : WorkLease} (h : s.leaseNextTask now lease = some s') :
    s' = s.expireWorkLeases now ∨
      ∃ task, (s.expireWorkLeases now).tasks lease.taskId = some task ∧ task.status = .submitted ∧
        (s.expireWorkLeases now).leased lease.taskId = false ∧
        s'.tasks = Function.update (s.expireWorkLeases now).tasks lease.taskId
          (some ⟨.claimed, some lease.id⟩) ∧
        s'.leases = (s.expireWorkLeases now).leases ++ [lease] := by
  simp only [leaseNextTask] at h
  split at h
  · rename_i task htask
    split at h
    · rename_i hsubmitted
      split at h
      · cases h
      · rename_i hfree
        cases h
        exact .inr ⟨task, htask, hsubmitted, Bool.not_eq_true _ ▸ hfree, rfl, rfl⟩
    · cases h
      exact .inl rfl
  · cases h
    exact .inl rfl

theorem leaseNextTask_isSome {s : QueueStore} {lease : WorkLease}
    (h : ∀ task, (s.expireWorkLeases now).tasks lease.taskId = some task →
      task.status = .submitted → (s.expireWorkLeases now).leased lease.taskId = false) :
    (s.leaseNextTask now lease).isSome := by
  simp only [leaseNextTask]
  split
  · rename_i task htask
    split
    · rename_i hsubmitted
      rw [if_neg (Bool.not_eq_true _ ▸ h task htask hsubmitted)]
      rfl
    · rfl
  · rfl

end QueueStore

end AgenticGit.Persistence
