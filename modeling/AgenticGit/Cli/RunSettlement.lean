import AgenticGit.Lib.OrderedMap
import AgenticGit.Cli.PromotedOnce

/- The end of a run: the settlement loop of `runPendingTasks` (`commands.ts`) over the
   results of `coordinator.run`, its `catch` and its `finally`.

   Correspondence (TypeScript ↔ Lean):
     `claimed`, `leases`, `result.runId`   ↔ the fields of `Settlement`; the coordinator
       is given a store, so the run has an id
     the rows and leases when the results come in ↔ `queue`, any that there can be
     a store call that throws, or refuses because somebody else was there first ↔ `faults`
     `options.cancellations?.reasonFor(id) !== undefined` ↔ `stopped`
     one turn of the loop                  ↔ `settleResult`; the flag says that it throws
     the `catch`, the `finally`            ↔ `failClaimed`, `finishRest`
   The audit event of the `catch`, the credential homes and the heartbeat are left out.
   `calls` are the calls of the run that write a row or a lease, in their order.

   What is proved:
     1. `turn_settleResult`, `looped` — a turn of the loop is about its own task and does
        what it would do alone, up to the first that throws.
     2. `settled_as_happened_iff` — each task is settled as what happened exactly when no
        settlement is refused, or the refusal finds nothing that it could spoil.
     3. `integrated_recorded_failed` — a task that was retried meanwhile makes the loop
        throw, and the integrated task after it is recorded as failed. -/
namespace AgenticGit.Cli.RunSettlement
open AgenticGit.Persistence AgenticGit.Cli.ResultCalls

/-! ## The settlement -/

inductive TaskStatus where
  | submitted | planning | approved | queued | running | replanning | awaitingApproval
  | validating | integrated | failed | paused | cancelled
  deriving DecidableEq, Repr

structure Result where
  task : String
  status : TaskStatus
  explanation : String
  deriving DecidableEq, Repr

structure ClaimedTask where
  id : String
  conversationId : Option String := none
  deriving DecidableEq, Repr

/-- How a lease call goes: as the store answers, refused, or with a throw. -/
inductive LeaseFault where
  | goes | refuses | throws
  deriving DecidableEq, Repr

structure Faults where
  /-- The call on the task's row throws. -/
  row : Bool := false
  lease : LeaseFault := .goes
  deriving DecidableEq, Repr

/-- What a run has when `coordinator.run` returns. -/
structure Settlement where
  claimed : List ClaimedTask
  results : List Result
  leases : OrderedMap String String
  queue : QueueStore
  runId : String
  stopped : String → Bool
  /-- The time at which a task's lease is finished. -/
  now : String → Int
  faults : String → Faults
  /-- One result for a task, and only for tasks the run has claimed. -/
  distinct : (results.map Result.task).Nodup
  known : ∀ r ∈ results, ∃ task ∈ claimed, task.id = r.task
  /-- One lease for a task, and on that task. -/
  once : ∀ a b lease, leases.get? a = some lease → leases.get? b = some lease → a = b
  own : ∀ task lease, leases.get? task = some lease →
    ∀ row ∈ queue.leases, row.id = lease → row.taskId = task

inductive Call where
  | retry (task : String)
  | complete (task : String) (status : QueueStore.Completion) (runId : Option String)
  | openTask (task : String) (runId : Option String)
  | finish (task lease : String) (status : WorkLeaseStatus) (detail : String)
  deriving DecidableEq, Repr

def Call.task : Call → String
  | .retry task => task
  | .complete task _ _ => task
  | .openTask task _ => task
  | .finish task _ _ _ => task

structure State where
  queue : QueueStore
  leases : OrderedMap String String
  calls : List Call := []
  integrated : Nat := 0
  failed : Nat := 0
  cancelled : Nat := 0

def releasable (queue : QueueStore) (lease : String) (now : Int) : Bool :=
  (queue.finishWorkLease lease .released now).2

def State.call (s : State) (call : Call) : State := { s with calls := s.calls ++ [call] }

namespace Settlement

variable (x : Settlement)

def start : State := { queue := x.queue, leases := x.leases }

/-- `finishWorkLease`, when it does not throw. -/
def finish (queue : QueueStore) (task lease : String) (status : WorkLeaseStatus) :
    Option (QueueStore × Bool) :=
  match (x.faults task).lease with
  | .goes => some (queue.finishWorkLease lease status (x.now task))
  | .refuses => some (queue, false)
  | .throws => none

/-- A conversational turn that landed leaves its task open. -/
def opens (r : Result) : Bool :=
  r.status = .integrated &&
    (x.claimed.find? fun task => task.id = r.task).any fun task => task.conversationId.isSome

/-- `"integrated"` or `"failed"`. -/
def recorded (r : Result) : QueueStore.Completion :=
  if r.status = .integrated then .integrated else .failed

def rowCall (r : Result) : Call :=
  if x.opens r then .openTask r.task (some x.runId)
  else .complete r.task (recorded r) (some x.runId)

/-- The call on the row; `none` when it throws. -/
def recordRow (queue : QueueStore) (r : Result) : Option QueueStore :=
  if (x.faults r.task).row then none
  else if x.opens r then queue.openSubmittedTask r.task
  else queue.completeSubmittedTask r.task (recorded r)

/-- Settled the moment the task is, not at the end of the run. -/
def settleLease (s : State) (r : Result) : State × Bool :=
  match s.leases.get? r.task with
  | none => (s, false)
  | some lease =>
    let status := if r.status = .integrated then .completed else .failed
    let s := s.call (.finish r.task lease status r.explanation)
    match x.finish s.queue r.task lease status with
    | some (queue, _) => ({ s with queue, leases := s.leases.delete r.task }, false)
    | none => (s, true)

/-- A request that never became runnable goes back behind the holders. -/
def settleQueued (s : State) (r : Result) : State × Bool :=
  match s.leases.get? r.task with
  | none =>
    let s := s.call (.retry r.task)
    match if (x.faults r.task).row then none else s.queue.retrySubmittedTask r.task with
    | some queue => ({ s with queue }, false)
    | none => (s, true)
  | some lease =>
    let s := s.call (.finish r.task lease .released r.explanation)
    match x.finish s.queue r.task lease .released with
    | some (queue, true) => ({ s with queue, leases := s.leases.delete r.task }, false)
    -- "Could not release queued work lease", or the call itself
    | _ => (s, true)

def settleEnded (s : State) (r : Result) : State × Bool :=
  let s :=
    if r.status = .integrated then { s with integrated := s.integrated + 1 }
    else { s with failed := s.failed + 1 }
  let s := s.call (x.rowCall r)
  match x.recordRow s.queue r with
  | some queue => x.settleLease { s with queue } r
  -- the one legitimate loser is a task somebody stopped
  | none => if x.stopped r.task then x.settleLease s r else (s, true)

def settleResult (s : State) (r : Result) : State × Bool :=
  if r.status = .queued then x.settleQueued s r
  else if r.status = .cancelled ∨ r.status = .paused then
    ({ s with cancelled := s.cancelled + 1, leases := s.leases.delete r.task }, false)
  else x.settleEnded s r

/-- The loop over the results; a turn that throws ends it. -/
def loop : State → List Result → State × Bool
  | s, [] => (s, false)
  | s, r :: rest =>
    match x.settleResult s r with
    | (s, false) => loop s rest
    | (s, true) => (s, true)

/-- `completeSubmittedTask(id, "failed")`, in the `catch`. -/
def failOne (s : State) (task : ClaimedTask) : State :=
  { s.call (.complete task.id .failed none) with
    queue := (s.queue.completeSubmittedTask task.id .failed).getD s.queue }

/-- The `catch`: every task of the run that is still claimed. -/
def failClaimed (s : State) : State :=
  (x.claimed.filter fun task => taskClaimed s.queue task.id).foldl failOne s

def restDetail : String := "run ended without an outcome for this task"

/-- The `finally`: every lease that is still held. -/
def finishRest (s : State) : State :=
  s.leases.entries.foldl (fun s (task, lease) =>
    { s.call (.finish task lease .failed restDetail) with
      queue := (s.queue.finishWorkLease lease .failed (x.now task)).1 }) s

def settle : State × Bool :=
  match x.loop x.start x.results with
  | (s, false) => (x.finishRest s, false)
  | (s, true) => (x.finishRest (x.failClaimed s), true)

/-! ## When it does what is promised -/

/-- What the loop asks of the store for a task, when it is asked alone. -/
def alone (r : Result) : List Call := (x.settleResult x.start r).1.calls

/-- Whether the settlement of a result throws: a release or a retry is refused, the row
is not claimed any more and nobody is known to have stopped the task, or a call fails. -/
def refused (r : Result) : Bool :=
  if r.status = .queued then
    match x.leases.get? r.task with
    | none => (x.faults r.task).row || !x.queue.changes r.task [.claimed, .failed]
    | some lease =>
      (x.faults r.task).lease ≠ .goes || !releasable x.queue lease (x.now r.task)
  else if r.status = .cancelled ∨ r.status = .paused then false
  else
    (!x.stopped r.task && ((x.faults r.task).row || !taskClaimed x.queue r.task)) ||
      ((x.leases.get? r.task).isSome && (x.faults r.task).lease = .throws)

/-- Whether the settlement of a result, or its refusal, leaves the row claimed. -/
def leftClaimed (r : Result) : Bool :=
  taskClaimed x.queue r.task &&
    if r.status = .queued then x.refused r
    else if r.status = .cancelled ∨ r.status = .paused then true
    else (x.faults r.task).row

def nothingDue (r : Result) : Bool :=
  (r.status = .cancelled || r.status = .paused) && (x.leases.get? r.task).isNone &&
    !taskClaimed x.queue r.task

/-- No settlement is refused; or the first that is leaves no integrated task claimed, what
was settled before it is not claimed, and after it come only results with nothing due and
results that would be refused as well, no integrated one of them claimed. -/
def undivided : Bool :=
  match x.results.dropWhile fun r => !x.refused r with
  | [] => true
  | first :: later =>
    !(first.status = .integrated && x.leftClaimed first) &&
      ((x.results.takeWhile fun r => !x.refused r).all fun r => !x.leftClaimed r) &&
      later.all fun r =>
        if x.refused r then !(r.status = .integrated && taskClaimed x.queue r.task)
        else x.nothingDue r

end Settlement

/-! ## What is promised -/

/-- Whether a call records a failure, or gives the task back to the queue. -/
def Call.undoes : Call → Bool
  | .retry _ => true
  | .complete _ status _ => status ≠ .integrated
  | .openTask _ _ => false
  | .finish _ _ status _ => status = .released

/-- Whether a call records that the task has integrated. -/
def Call.lands : Call → Bool
  | .complete _ status _ => status = .integrated
  | .openTask _ _ => true
  | _ => false

/-- Each task is settled as what happened. -/
structure SettledAsHappened (x : Settlement) : Prop where
  integrated : ∀ r ∈ x.results, r.status = .integrated →
    ∀ call ∈ x.settle.1.calls, call.task = r.task → call.undoes = false
  not_integrated : ∀ r ∈ x.results, r.status ≠ .integrated →
    ∀ call ∈ x.settle.1.calls, call.task = r.task → call.lands = false
  /-- What is asked for a task is what would be asked for it alone. -/
  alone : ∀ r ∈ x.results, x.refused r = false →
    (x.settle.1.calls.filter fun call => call.task = r.task) = x.alone r

/-! ## One turn of the loop -/

section Queue

variable {queue : QueueStore}

theorem releasable_of_leases {queue' : QueueStore} (h : queue'.leases = queue.leases)
    (lease : String) (now : Int) : releasable queue' lease now = releasable queue lease now := by
  simp only [releasable, QueueStore.finishWorkLease, h]
  split
  · rfl
  · split <;> rfl

variable {lease other : String} {status : WorkLeaseStatus}

theorem find?_finishWorkLease (leases : List WorkLease) (hother : lease ≠ other)
    (status : WorkLeaseStatus) (now : Int) :
    ((finishWorkLease leases other status now).find? fun row =>
        row.id = lease && row.status = .active) =
      leases.find? fun row => row.id = lease && row.status = .active := by
  induction leases with
  | nil => rfl
  | cons row rows ih =>
    simp only [finishWorkLease, List.map_cons] at ih ⊢
    by_cases hrow : row.id = other
    · have hne : row.id ≠ lease := fun hid => hother (hid.symm.trans hrow)
      rw [List.find?_cons_of_neg, List.find?_cons_of_neg, ih]
      · simp [hne]
      · simp only [apply_ite WorkLease.id, ite_self, hne, decide_false, Bool.false_and]
        exact Bool.noConfusion
    · rw [if_neg fun hended => hrow hended.1, List.find?_cons, List.find?_cons, ih]

theorem releasable_other (hother : lease ≠ other) (status : WorkLeaseStatus) (at' now : Int) :
    releasable (queue.finishWorkLease other status at').1 lease now = releasable queue lease now := by
  cases hfinish : queue.finishWorkLease other status at' with
  | mk ended done =>
    cases done with
    | false => rw [QueueStore.finishWorkLease_false hfinish]
    | true =>
      obtain ⟨_, _, _, _, _, hleases, _⟩ := QueueStore.finishWorkLease_true hfinish
      simp only [releasable, QueueStore.finishWorkLease, hleases]
      rw [find?_finishWorkLease queue.leases hother]
      split
      · rfl
      · split <;> rfl

theorem update_tasks_other {id taskId : String} (hid : taskId ≠ id)
    (among : List SubmittedTaskStatus) (status : SubmittedTaskStatus) :
    (queue.update id among status).tasks taskId = queue.tasks taskId := by
  simp [QueueStore.update, QueueStore.updateWhere, hid]

theorem finishWorkLease_tasks_other {lease taskId : String} {now : Int}
    (hown : ∀ row ∈ queue.leases, row.id = lease → row.taskId ≠ taskId) :
    (queue.finishWorkLease lease status now).1.tasks taskId = queue.tasks taskId := by
  cases hfinish : queue.finishWorkLease lease status now with
  | mk ended done =>
    cases done with
    | false => rw [QueueStore.finishWorkLease_false hfinish]
    | true =>
      obtain ⟨row, hrow, hid, _, _, _, htasks⟩ := QueueStore.finishWorkLease_true hfinish
      show ended.tasks taskId = queue.tasks taskId
      rw [htasks]
      split
      · exact update_tasks_other (hown row hrow hid).symm _ _
      · rfl

theorem finishWorkLease_tasks {lease : String} {now : Int}
    (hstatus : ¬ (status = .released ∨ status = .expired)) :
    (queue.finishWorkLease lease status now).1.tasks = queue.tasks := by
  cases hfinish : queue.finishWorkLease lease status now with
  | mk ended done =>
    cases done with
    | false => rw [QueueStore.finishWorkLease_false hfinish]
    | true =>
      obtain ⟨_, _, _, _, _, _, htasks⟩ := QueueStore.finishWorkLease_true hfinish
      rw [if_neg hstatus] at htasks
      exact htasks

end Queue

theorem recordRow_cases (x : Settlement) (queue : QueueStore) (r : Result) :
    (x.recordRow queue r = none ∧
        ((x.faults r.task).row = true ∨ taskClaimed queue r.task = false)) ∨
      ∃ status ≠ SubmittedTaskStatus.claimed,
        x.recordRow queue r = some (queue.update r.task [.claimed] status) ∧
        (x.faults r.task).row = false ∧ taskClaimed queue r.task = true := by
  have complete : ∀ status : SubmittedTaskStatus, status ≠ .claimed → ∀ ended,
      ended = (if queue.changes r.task [.claimed] then
        some (queue.update r.task [.claimed] status) else none) →
      (ended = none ∧ taskClaimed queue r.task = false) ∨
        ∃ status ≠ SubmittedTaskStatus.claimed,
          ended = some (queue.update r.task [.claimed] status) ∧ taskClaimed queue r.task = true := by
    rintro status hstatus ended rfl
    cases hclaimed : queue.changes r.task [.claimed] with
    | false => exact .inl ⟨rfl, hclaimed⟩
    | true => exact .inr ⟨status, hstatus, rfl, hclaimed⟩
  have hended : ∃ ended, (if x.opens r then queue.openSubmittedTask r.task
        else queue.completeSubmittedTask r.task (Settlement.recorded r)) = ended ∧
      ((ended = none ∧ taskClaimed queue r.task = false) ∨
        ∃ status ≠ SubmittedTaskStatus.claimed,
          ended = some (queue.update r.task [.claimed] status) ∧
            taskClaimed queue r.task = true) := by
    refine ⟨_, rfl, ?_⟩
    split
    · exact complete .open (by decide) _ rfl
    · refine complete (Settlement.recorded r).status ?_ _ rfl
      cases Settlement.recorded r <;> decide
  obtain ⟨ended, heq, hcases⟩ := hended
  cases hrow : (x.faults r.task).row with
  | true => exact .inl ⟨by simp [Settlement.recordRow, hrow], .inl rfl⟩
  | false =>
    have hrecord : x.recordRow queue r = ended := by simp [Settlement.recordRow, hrow, heq]
    rw [hrecord]
    rcases hcases with ⟨hnone, hclaimed⟩ | ⟨status, hstatus, hsome, hclaimed⟩
    · exact .inl ⟨hnone, .inr hclaimed⟩
    · exact .inr ⟨status, hstatus, hsome, rfl, hclaimed⟩

structure Untouched (x : Settlement) (s : State) (task : String) : Prop where
  row : s.queue.tasks task = x.queue.tasks task
  lease : s.leases.get? task = x.leases.get? task
  release : ∀ lease, x.leases.get? task = some lease →
    releasable s.queue lease (x.now task) = releasable x.queue lease (x.now task)

def Owned (x : Settlement) (queue : QueueStore) : Prop :=
  ∀ task lease, x.leases.get? task = some lease →
    ∀ row ∈ queue.leases, row.id = lease → row.taskId = task

/-- What a turn asks about the lease of an ended task. -/
def leaseCalls (x : Settlement) (r : Result) : List Call :=
  match x.leases.get? r.task with
  | none => []
  | some lease =>
    [.finish r.task lease (if r.status = .integrated then .completed else .failed) r.explanation]

def asked (x : Settlement) (r : Result) : List Call :=
  if r.status = .queued then
    match x.leases.get? r.task with
    | none => [.retry r.task]
    | some lease => [.finish r.task lease .released r.explanation]
  else if r.status = .cancelled ∨ r.status = .paused then []
  else
    x.rowCall r ::
      if x.stopped r.task || (!(x.faults r.task).row && taskClaimed x.queue r.task) then
        leaseCalls x r
      else []

/-- A turn for `r`, from a state in which its task is untouched. -/
structure Turn (x : Settlement) (s : State) (r : Result) (done : State × Bool) : Prop where
  threw : done.2 = x.refused r
  calls : done.1.calls = s.calls ++ asked x r
  left : taskClaimed done.1.queue r.task = x.leftClaimed r
  rows : ∀ task, task ≠ r.task → done.1.queue.tasks task = s.queue.tasks task
  leases : ∀ task, task ≠ r.task → done.1.leases.get? task = s.leases.get? task
  release : ∀ task, task ≠ r.task → ∀ lease, x.leases.get? task = some lease →
    releasable done.1.queue lease (x.now task) = releasable s.queue lease (x.now task)
  later : s.queue.Later done.1.queue
  gone : done.2 = false → done.1.leases.get? r.task = none

section Turns

variable {x : Settlement} {s : State} {r : Result}

variable {queue queue' : QueueStore}

theorem finish_some {task lease : String} {status : WorkLeaseStatus} {done : Bool}
    (h : x.finish queue task lease status = some (queue', done)) : queue.Later queue' ∧
      (∀ other, other ≠ lease → ∀ now, releasable queue' other now = releasable queue other now) ∧
      (¬ (status = .released ∨ status = .expired) → queue'.tasks = queue.tasks) ∧
      (∀ taskId, (∀ row ∈ queue.leases, row.id = lease → row.taskId ≠ taskId) →
        queue'.tasks taskId = queue.tasks taskId) := by
  simp only [Settlement.finish] at h
  split at h
  · obtain rfl : queue' = (queue.finishWorkLease lease status (x.now task)).1 := by
      rw [Option.some.inj h]
    exact ⟨QueueStore.later_finishWorkLease queue lease status (x.now task),
      fun _ hother now => releasable_other hother status (x.now task) now,
      finishWorkLease_tasks, fun _ hown => finishWorkLease_tasks_other hown⟩
  · cases h
    exact ⟨QueueStore.later_of_eq rfl, fun _ _ _ => rfl, fun _ => rfl, fun _ _ => rfl⟩
  · cases h

theorem other_lease {task lease lease' : String} (htask : task ≠ r.task)
    (hlease : x.leases.get? r.task = some lease) (hother : x.leases.get? task = some lease') :
    lease' ≠ lease := by
  rintro rfl
  exact htask (x.once task r.task _ hother hlease)

theorem settleLease_turn (hlease : s.leases.get? r.task = x.leases.get? r.task) :
    (x.settleLease s r).2 =
        ((x.leases.get? r.task).isSome && decide ((x.faults r.task).lease = .throws)) ∧
      (x.settleLease s r).1.calls = s.calls ++ leaseCalls x r ∧
      (x.settleLease s r).1.queue.tasks = s.queue.tasks ∧
      (∀ task, task ≠ r.task → (x.settleLease s r).1.leases.get? task = s.leases.get? task) ∧
      (∀ task, task ≠ r.task → ∀ lease, x.leases.get? task = some lease →
        releasable (x.settleLease s r).1.queue lease (x.now task) =
          releasable s.queue lease (x.now task)) ∧
      s.queue.Later (x.settleLease s r).1.queue ∧
      ((x.settleLease s r).2 = false → (x.settleLease s r).1.leases.get? r.task = none) := by
  simp only [Settlement.settleLease, leaseCalls, hlease]
  cases hheld : x.leases.get? r.task with
  | none =>
    refine ⟨rfl, (List.append_nil _).symm, rfl, fun _ _ => rfl, fun _ _ _ _ => rfl,
      QueueStore.later_of_eq rfl, fun _ => hlease.trans hheld⟩
  | some lease =>
    have hended : ∀ p : Prop, [Decidable p] →
        ¬ ((if p then WorkLeaseStatus.completed else .failed) = .released ∨
          (if p then WorkLeaseStatus.completed else .failed) = .expired) := by
      intro p _
      split <;> decide
    dsimp only
    split
    · rename_i queue done hfinish
      obtain ⟨hlater, hrelease, htasks, _⟩ := finish_some hfinish
      have hgoes : (x.faults r.task).lease ≠ .throws := by
        intro hthrows
        simp [Settlement.finish, hthrows] at hfinish
      refine ⟨by simp [hgoes], rfl, htasks (hended _), ?_, ?_, hlater, ?_⟩
      · intro task htask
        exact (OrderedMap.get?_delete _ _ _).trans (if_neg htask)
      · intro task htask lease' hlease'
        exact hrelease lease' (other_lease htask hheld hlease') (x.now task)
      · intro _
        exact (OrderedMap.get?_delete _ _ _).trans (if_pos rfl)
    · rename_i hfinish
      have hthrows : (x.faults r.task).lease = .throws := by
        cases hfault : (x.faults r.task).lease with
        | throws => rfl
        | goes => simp [Settlement.finish, hfault] at hfinish
        | refuses => simp [Settlement.finish, hfault] at hfinish
      refine ⟨by simp [hthrows], rfl, rfl, fun _ _ => rfl, fun _ _ _ _ => rfl,
        QueueStore.later_of_eq rfl, ?_⟩
      intro h
      cases h

theorem taskClaimed_of_tasks {task : String} (h : queue'.tasks task = queue.tasks task) :
    taskClaimed queue' task = taskClaimed queue task := by
  simp only [taskClaimed, QueueStore.changes, h]

theorem turn_queued (hstatus : r.status = .queued) (h : Untouched x s r.task)
    (howned : Owned x s.queue) : Turn x s r (x.settleQueued s r) := by
  have hclaimed := taskClaimed_of_tasks h.row
  have hchanges : s.queue.changes r.task [.claimed, .failed] =
      x.queue.changes r.task [.claimed, .failed] := by
    simp only [QueueStore.changes, h.row]
  simp only [Settlement.settleQueued, h.lease]
  cases hheld : x.leases.get? r.task with
  | none =>
    have hasked : asked x r = [.retry r.task] := by simp only [asked, hstatus, if_true, hheld]
    have hrefused : x.refused r =
        ((x.faults r.task).row || !x.queue.changes r.task [.claimed, .failed]) := by
      simp only [Settlement.refused, hstatus, if_true, hheld]
    have hleft : x.leftClaimed r = (taskClaimed x.queue r.task && x.refused r) := by
      simp only [Settlement.leftClaimed, hstatus, if_true]
    dsimp only
    split
    · rename_i queue hretried
      obtain ⟨hrow, hretried⟩ := Option.ite_none_left_eq_some.mp hretried
      obtain ⟨hcan, rfl⟩ := QueueStore.retrySubmittedTask_some hretried
      change s.queue.changes r.task [.claimed, .failed] = true at hcan
      have hgranted : x.refused r = false := by
        rw [hrefused, Bool.eq_false_iff.mpr hrow, ← hchanges, hcan]
        rfl
      refine ⟨hgranted.symm, ?_, ?_, fun task htask => update_tasks_other htask _ _,
        fun _ _ => rfl, ?_, QueueStore.later_of_eq rfl, fun _ => h.lease.trans hheld⟩
      · rw [hasked]
        rfl
      · rw [hleft, hgranted, Bool.and_false]
        exact unclaimed_update (by decide) (by decide)
      · intro _ _ lease _
        apply releasable_of_leases
        rfl
    · rename_i hretried
      have hrefuses : x.refused r = true := by
        rw [hrefused]
        cases hrow : (x.faults r.task).row with
        | true => rfl
        | false =>
          rw [hrow, if_neg Bool.false_ne_true] at hretried
          cases hcan : x.queue.changes r.task [.claimed, .failed] with
          | false => rfl
          | true =>
            rw [← hchanges] at hcan
            change (if s.queue.changes r.task [.claimed, .failed] then _ else none) = none
              at hretried
            rw [if_pos hcan] at hretried
            cases hretried
      refine ⟨hrefuses.symm, ?_, ?_, fun _ _ => rfl, fun _ _ => rfl, fun _ _ _ _ => rfl,
        QueueStore.later_of_eq rfl, Bool.noConfusion⟩
      · rw [hasked]
        rfl
      · rw [hleft, hrefuses, Bool.and_true]
        exact hclaimed
  | some lease =>
    have hasked : asked x r = [.finish r.task lease .released r.explanation] := by
      simp only [asked, hstatus, if_true, hheld]
    have hrefused : x.refused r =
        (decide ((x.faults r.task).lease ≠ .goes) || !releasable x.queue lease (x.now r.task)) := by
      simp only [Settlement.refused, hstatus, if_true, hheld]
    have hleft : x.leftClaimed r = (taskClaimed x.queue r.task && x.refused r) := by
      simp only [Settlement.leftClaimed, hstatus, if_true]
    have hrelease := h.release lease hheld
    dsimp only
    split
    · rename_i queue hfinish
      obtain ⟨hlater, hreleases, _, htasks⟩ := finish_some hfinish
      have hgoes : (x.faults r.task).lease = .goes := by
        cases hfault : (x.faults r.task).lease with
        | goes => rfl
        | refuses => simp [Settlement.finish, hfault] at hfinish
        | throws => simp [Settlement.finish, hfault] at hfinish
      simp only [Settlement.finish, hgoes] at hfinish
      replace hfinish := Option.some.inj hfinish
      have hgranted : x.refused r = false := by
        rw [hrefused, hgoes, ← hrelease, releasable]
        change s.queue.finishWorkLease lease .released (x.now r.task) = _ at hfinish
        rw [hfinish]
        rfl
      refine ⟨hgranted.symm, ?_, ?_, ?_, ?_, ?_, hlater, ?_⟩
      · rw [hasked]
        rfl
      · rw [hleft, hgranted, Bool.and_false]
        obtain ⟨row, hrow, hid, _, _, _, hrows⟩ := QueueStore.finishWorkLease_true hfinish
        rw [if_pos (.inl rfl), howned r.task lease hheld row hrow hid] at hrows
        show taskClaimed queue r.task = false
        rw [taskClaimed_of_tasks (congrFun hrows r.task)]
        exact unclaimed_update (List.mem_singleton_self _) (by decide)
      · intro task htask
        refine htasks task fun row hrow hid => ?_
        rw [howned r.task lease hheld row hrow hid]
        exact htask.symm
      · intro task htask
        exact (OrderedMap.get?_delete _ _ _).trans (if_neg htask)
      · intro task htask lease' hlease'
        exact hreleases lease' (other_lease htask hheld hlease') (x.now task)
      · intro _
        exact (OrderedMap.get?_delete _ _ _).trans (if_pos rfl)
    · rename_i hfinish
      have hrefuses : x.refused r = true := by
        rw [hrefused]
        cases hfault : (x.faults r.task).lease with
        | refuses => rfl
        | throws => rfl
        | goes =>
          cases hgranted : releasable x.queue lease (x.now r.task) with
          | false => rfl
          | true =>
            rw [← hrelease] at hgranted
            refine (hfinish (s.queue.finishWorkLease lease .released (x.now r.task)).1 ?_).elim
            simp only [Settlement.finish, hfault]
            exact congrArg some (Prod.ext rfl hgranted)
      refine ⟨hrefuses.symm, ?_, ?_, fun _ _ => rfl, fun _ _ => rfl, fun _ _ _ _ => rfl,
        QueueStore.later_of_eq rfl, Bool.noConfusion⟩
      · rw [hasked]
        rfl
      · rw [hleft, hrefuses, Bool.and_true]
        exact hclaimed

end Turns

section Turns

variable {x : Settlement} {s : State} {r : Result}

theorem turn_settleLease {base : State} (hleases : base.leases = s.leases)
    (hlease : s.leases.get? r.task = x.leases.get? r.task)
    (hcalls : base.calls = s.calls ++ [x.rowCall r])
    (hqueue : base.queue.leases = s.queue.leases)
    (hrows : ∀ task, task ≠ r.task → base.queue.tasks task = s.queue.tasks task)
    (hleft : taskClaimed base.queue r.task = x.leftClaimed r)
    (hrefused : x.refused r =
      ((x.leases.get? r.task).isSome && decide ((x.faults r.task).lease = .throws)))
    (hasked : asked x r = x.rowCall r :: leaseCalls x r) : Turn x s r (x.settleLease base r) := by
  obtain ⟨hthrew, hcall, htasks, hothers, hrelease, hlater, hgone⟩ :=
    settleLease_turn (hleases ▸ hlease : base.leases.get? r.task = x.leases.get? r.task)
  refine ⟨hthrew.trans hrefused.symm, ?_, ?_, ?_, ?_, ?_, ?_, hgone⟩
  · rw [hcall, hcalls, hasked, List.append_assoc, List.singleton_append]
  · rw [taskClaimed_of_tasks (congrFun htasks r.task)]
    exact hleft
  · intro task htask
    exact (congrFun htasks task).trans (hrows task htask)
  · intro task htask
    exact (hothers task htask).trans (by rw [hleases])
  · intro task htask lease hheld
    exact (hrelease task htask lease hheld).trans (releasable_of_leases hqueue lease _)
  · obtain ⟨f, hf, hmap⟩ := hlater
    exact ⟨f, hf, by rw [hmap, hqueue]⟩

theorem turn_ended (hqueued : r.status ≠ .queued)
    (hstop : ¬ (r.status = .cancelled ∨ r.status = .paused)) (h : Untouched x s r.task) :
    Turn x s r (x.settleEnded s r) := by
  have hclaimed := taskClaimed_of_tasks h.row
  have hasked : asked x r = x.rowCall r ::
      if x.stopped r.task || (!(x.faults r.task).row && taskClaimed x.queue r.task) then
        leaseCalls x r
      else [] := by
    simp only [asked, hqueued, hstop, if_false]
  have hrefused : x.refused r =
      ((!x.stopped r.task && ((x.faults r.task).row || !taskClaimed x.queue r.task)) ||
        ((x.leases.get? r.task).isSome && decide ((x.faults r.task).lease = .throws))) := by
    simp only [Settlement.refused, hqueued, hstop, if_false]
  have hleft : x.leftClaimed r = (taskClaimed x.queue r.task && (x.faults r.task).row) := by
    simp only [Settlement.leftClaimed, hqueued, hstop, if_false]
  -- counting changes nothing that a turn reads
  obtain ⟨counted, hqueue, hleases, hcalls, hdone⟩ : ∃ counted : State,
      counted.queue = s.queue ∧ counted.leases = s.leases ∧
      counted.calls = s.calls ++ [x.rowCall r] ∧
      x.settleEnded s r = match x.recordRow counted.queue r with
        | some queue => x.settleLease { counted with queue } r
        | none => if x.stopped r.task then x.settleLease counted r else (counted, true) := by
    refine ⟨_, ?_, ?_, ?_, rfl⟩
    · split <;> rfl
    · split <;> rfl
    · split <;> rfl
  rw [hdone, hqueue]
  rcases recordRow_cases x s.queue r with ⟨hnone, hwhy⟩ | ⟨status, hstatus, hsome, hrow, hwas⟩
  · rw [hclaimed] at hwhy
    have hkept : taskClaimed s.queue r.task = x.leftClaimed r := by
      rw [hleft, hclaimed]
      rcases hwhy with hrow | hout
      · rw [hrow, Bool.and_true]
      · rw [hout]
        rfl
    have hfails : (!(x.faults r.task).row && taskClaimed x.queue r.task) = false := by
      rcases hwhy with hrow | hout
      · rw [hrow]
        rfl
      · rw [hout, Bool.and_false]
    have hthrows : ((x.faults r.task).row || !taskClaimed x.queue r.task) = true := by
      rcases hwhy with hrow | hout
      · rw [hrow]
        rfl
      · rw [hout, Bool.not_false, Bool.or_true]
    rw [hnone]
    dsimp only
    cases hstopped : x.stopped r.task with
    | true =>
      rw [if_pos rfl]
      refine turn_settleLease hleases h.lease hcalls (by rw [hqueue]) ?_ ?_ ?_ ?_
      · exact fun _ _ => by rw [hqueue]
      · rw [hqueue]
        exact hkept
      · rw [hrefused, hstopped]
        rfl
      · rw [hasked, hstopped]
        rfl
    | false =>
      have hrefuses : x.refused r = true := by
        rw [hrefused, hstopped, hthrows]
        rfl
      rw [if_neg Bool.false_ne_true]
      refine ⟨hrefuses.symm, ?_, ?_, ?_, ?_, ?_, ?_, Bool.noConfusion⟩
      · rw [hasked, hstopped, hfails]
        exact hcalls
      · show taskClaimed counted.queue r.task = x.leftClaimed r
        rw [hqueue]
        exact hkept
      · exact fun _ _ => by rw [hqueue]
      · exact fun _ _ => by rw [hleases]
      · exact fun _ _ _ _ => by rw [hqueue]
      · exact QueueStore.later_of_eq (by rw [hqueue])
  · rw [hclaimed] at hwas
    rw [hsome]
    dsimp only
    refine turn_settleLease hleases h.lease hcalls rfl ?_ ?_ ?_ ?_
    · exact fun task htask => update_tasks_other htask _ _
    · rw [hleft, hrow, Bool.and_false]
      exact unclaimed_update (List.mem_singleton_self _) hstatus
    · rw [hrefused, hrow, hwas, Bool.not_true, Bool.or_false, Bool.and_false, Bool.false_or]
    · rw [hasked, hrow, hwas]
      simp

/-- **A turn of the loop is about its own task**, and does what it would do alone. -/
theorem turn_settleResult (h : Untouched x s r.task) (howned : Owned x s.queue) :
    Turn x s r (x.settleResult s r) := by
  simp only [Settlement.settleResult]
  split
  · rename_i hqueued
    exact turn_queued hqueued h howned
  · rename_i hqueued
    split
    · rename_i hstop
      have hasked : asked x r = [] := by simp only [asked, hqueued, hstop, if_false, if_true]
      have hrefused : x.refused r = false := by
        simp only [Settlement.refused, hqueued, hstop, if_false, if_true]
      have hleft : x.leftClaimed r = taskClaimed x.queue r.task := by
        simp only [Settlement.leftClaimed, hqueued, hstop, if_false, if_true, Bool.and_true]
      refine ⟨hrefused.symm, ?_, ?_, fun _ _ => rfl, ?_, fun _ _ _ _ => rfl,
        QueueStore.later_of_eq rfl, ?_⟩
      · rw [hasked, List.append_nil]
      · rw [hleft]
        exact taskClaimed_of_tasks h.row
      · intro task htask
        exact (OrderedMap.get?_delete _ _ _).trans (if_neg htask)
      · intro _
        exact (OrderedMap.get?_delete _ _ _).trans (if_pos rfl)
    · rename_i hstop
      exact turn_ended hqueued hstop h

end Turns

theorem untouched_start (x : Settlement) (task : String) : Untouched x x.start task :=
  ⟨rfl, rfl, fun _ _ => rfl⟩

theorem asked_eq (x : Settlement) (r : Result) : asked x r = x.alone r := by
  have hturn := turn_settleResult (untouched_start x r.task) x.own
  exact (hturn.calls.trans (List.nil_append _)).symm

/-! ## The loop, the catch and the finally -/

/-- What is before the first refusal, and the refused result with what is after it. -/
def mainline (x : Settlement) (rs : List Result) : List Result :=
  rs.takeWhile fun r => !x.refused r

def rest (x : Settlement) (rs : List Result) : List Result :=
  rs.dropWhile fun r => !x.refused r

def reached (x : Settlement) (rs : List Result) : List Result :=
  mainline x rs ++ (rest x rs).take 1

theorem reached_subset (x : Settlement) (rs : List Result) {r : Result} (h : r ∈ reached x rs) :
    r ∈ rs := by
  rcases List.mem_append.mp h with h | h
  · exact (List.takeWhile_sublist _).subset h
  · exact (List.dropWhile_sublist _).subset (List.mem_of_mem_take h)

/-- What the loop does with the results it is given. -/
structure Looped (x : Settlement) (s : State) (rs : List Result) (done : State × Bool) : Prop where
  threw : done.2 = !(rest x rs).isEmpty
  calls : done.1.calls = s.calls ++ (reached x rs).flatMap x.alone
  left : ∀ r ∈ reached x rs, taskClaimed done.1.queue r.task = x.leftClaimed r
  gone : ∀ r ∈ mainline x rs, done.1.leases.get? r.task = none
  rows : ∀ task, (∀ r ∈ reached x rs, r.task ≠ task) → done.1.queue.tasks task = s.queue.tasks task
  leases : ∀ task, (∀ r ∈ reached x rs, r.task ≠ task) →
    done.1.leases.get? task = s.leases.get? task

theorem owned_later {x : Settlement} {queue queue' : QueueStore} (h : Owned x queue)
    (hlater : queue.Later queue') : Owned x queue' := by
  obtain ⟨f, hf, hmap⟩ := hlater
  intro task lease hlease row hrow hid
  rw [hmap] at hrow
  obtain ⟨old, hold, rfl⟩ := List.mem_map.mp hrow
  exact (hf old).taskId.trans (h task lease hlease old hold ((hf old).id.symm.trans hid))

theorem looped (x : Settlement) (rs : List Result) {s : State} (hdistinct : (rs.map Result.task).Nodup)
    (huntouched : ∀ r ∈ rs, Untouched x s r.task) (howned : Owned x s.queue) :
    Looped x s rs (x.loop s rs) := by
  induction rs generalizing s with
  | nil =>
    refine ⟨rfl, (List.append_nil _).symm, ?_, ?_, fun _ _ => rfl, fun _ _ => rfl⟩
    · intro r hr
      cases hr
    · intro r hr
      cases hr
  | cons r rs ih =>
    obtain ⟨hnew, hdistinct⟩ := List.nodup_cons.mp (List.map_cons ▸ hdistinct)
    have hother : ∀ r' ∈ rs, r'.task ≠ r.task := by
      intro r' hr' htask
      exact hnew (htask ▸ List.mem_map_of_mem hr')
    have hturn := turn_settleResult (huntouched r List.mem_cons_self) howned
    cases hdone : x.settleResult s r with
    | mk s' threw =>
      rw [hdone] at hturn
      cases hrefused : x.refused r with
      | true =>
        have hthrew : threw = true := hturn.threw.trans hrefused
        have hmain : mainline x (r :: rs) = [] := by simp [mainline, hrefused]
        have hrest : rest x (r :: rs) = r :: rs := by simp [rest, hrefused]
        have hreached : reached x (r :: rs) = [r] := by simp [reached, hmain, hrest]
        have hloop : x.loop s (r :: rs) = (s', true) := by
          simp only [Settlement.loop, hdone, hthrew]
        rw [hloop]
        refine ⟨by rw [hrest]; rfl, ?_, ?_, ?_, ?_, ?_⟩
        · rw [hreached, List.flatMap_singleton, ← asked_eq]
          exact hturn.calls
        · intro r' hr'
          rw [hreached] at hr'
          rw [List.mem_singleton.mp hr']
          exact hturn.left
        · intro r' hr'
          rw [hmain] at hr'
          cases hr'
        · intro task htask
          rw [hreached] at htask
          exact hturn.rows task (htask r (List.mem_singleton_self r)).symm
        · intro task htask
          rw [hreached] at htask
          exact hturn.leases task (htask r (List.mem_singleton_self r)).symm
      | false =>
        have hthrew : threw = false := hturn.threw.trans hrefused
        have hmain : mainline x (r :: rs) = r :: mainline x rs := by simp [mainline, hrefused]
        have hrest : rest x (r :: rs) = rest x rs := by simp [rest, hrefused]
        have hreached : reached x (r :: rs) = r :: reached x rs := by
          simp [reached, hmain, hrest]
        have hloop : x.loop s (r :: rs) = x.loop s' rs := by
          simp only [Settlement.loop, hdone, hthrew]
        have hfresh : ∀ r' ∈ reached x rs, r'.task ≠ r.task :=
          fun r' hr' => hother r' (reached_subset x rs hr')
        have hlooped : Looped x s' rs (x.loop s' rs) := by
          refine ih hdistinct ?_ (owned_later howned hturn.later)
          intro r' hr'
          have hwas := huntouched r' (List.mem_cons_of_mem r hr')
          have hne := hother r' hr'
          exact ⟨(hturn.rows _ hne).trans hwas.row, (hturn.leases _ hne).trans hwas.lease,
            fun lease hlease =>
              (hturn.release _ hne lease hlease).trans (hwas.release lease hlease)⟩
        rw [hloop]
        refine ⟨by rw [hrest]; exact hlooped.threw, ?_, ?_, ?_, ?_, ?_⟩
        · rw [hlooped.calls, hturn.calls, hreached, List.flatMap_cons, asked_eq, List.append_assoc]
        · intro r' hr'
          rw [hreached] at hr'
          rcases List.mem_cons.mp hr' with rfl | hr'
          · rw [taskClaimed_of_tasks (hlooped.rows _ hfresh)]
            exact hturn.left
          · exact hlooped.left r' hr'
        · intro r' hr'
          rw [hmain] at hr'
          rcases List.mem_cons.mp hr' with rfl | hr'
          · rw [hlooped.leases _ hfresh]
            exact hturn.gone hthrew
          · exact hlooped.gone r' hr'
        · intro task htask
          rw [hreached] at htask
          rw [hlooped.rows task fun r' hr' => htask r' (List.mem_cons_of_mem r hr')]
          exact hturn.rows task (htask r List.mem_cons_self).symm
        · intro task htask
          rw [hreached] at htask
          rw [hlooped.leases task fun r' hr' => htask r' (List.mem_cons_of_mem r hr')]
          exact hturn.leases task (htask r List.mem_cons_self).symm

/-- The calls of the `catch`. -/
def catchCalls (x : Settlement) (queue : QueueStore) : List Call :=
  (x.claimed.filter fun task => taskClaimed queue task.id).map fun task =>
    .complete task.id .failed none

/-- The calls of the `finally`. -/
def restCalls (leases : OrderedMap String String) : List Call :=
  leases.entries.map fun (task, lease) =>
    .finish task lease .failed Settlement.restDetail

theorem foldl_failOne (tasks : List ClaimedTask) (s : State) :
    (tasks.foldl Settlement.failOne s).calls =
        s.calls ++ tasks.map (fun task => Call.complete task.id .failed none) ∧
      (tasks.foldl Settlement.failOne s).leases = s.leases := by
  induction tasks generalizing s with
  | nil => exact ⟨(List.append_nil _).symm, rfl⟩
  | cons task tasks ih =>
    obtain ⟨hcalls, hleases⟩ := ih (Settlement.failOne s task)
    rw [List.foldl_cons, hcalls, hleases, List.map_cons]
    exact ⟨by simp [Settlement.failOne, State.call], rfl⟩

theorem finishRest_calls (x : Settlement) (s : State) :
    (x.finishRest s).calls = s.calls ++ restCalls s.leases := by
  have hfold : ∀ (entries : List (String × String)) (s : State),
      (entries.foldl (fun s (task, lease) =>
        { s.call (.finish task lease .failed Settlement.restDetail) with
          queue := (s.queue.finishWorkLease lease .failed (x.now task)).1 }) s).calls =
      s.calls ++ entries.map fun (task, lease) =>
        Call.finish task lease .failed Settlement.restDetail := by
    intro entries
    induction entries with
    | nil => exact fun s => (List.append_nil _).symm
    | cons entry entries ih =>
      intro s
      rw [List.foldl_cons, ih, List.map_cons]
      simp [State.call]
  exact hfold s.leases.entries s

theorem settle_calls (x : Settlement) :
    x.settle.1.calls = (reached x x.results).flatMap x.alone ++
      ((if (x.loop x.start x.results).2 then
          catchCalls x (x.loop x.start x.results).1.queue else []) ++
        restCalls (x.loop x.start x.results).1.leases) := by
  have hlooped := looped x x.results x.distinct (fun r _ => untouched_start x r.task) x.own
  have hcalls := hlooped.calls
  simp only [Settlement.settle]
  cases hloop : x.loop x.start x.results with
  | mk s threw =>
    rw [hloop] at hcalls
    have hcalls : s.calls = (reached x x.results).flatMap x.alone := hcalls
    cases threw with
    | false =>
      show (x.finishRest s).calls = _
      rw [finishRest_calls, hcalls]
      rfl
    | true =>
      obtain ⟨hfail, hleases⟩ :=
        foldl_failOne (x.claimed.filter fun task => taskClaimed s.queue task.id) s
      show (x.finishRest (x.failClaimed s)).calls = _
      rw [finishRest_calls, Settlement.failClaimed, hfail, hleases, hcalls, List.append_assoc]
      rfl

/-! ## What is asked for a task -/

section Asked

variable {x : Settlement} {r : Result}

theorem leaseCalls_mem {call : Call} (h : call ∈ leaseCalls x r) :
    call.task = r.task ∧ call.undoes = false ∧ call.lands = false := by
  simp only [leaseCalls] at h
  split at h
  · cases h
  · rw [List.mem_singleton.mp h]
    refine ⟨rfl, ?_, rfl⟩
    simp only [Call.undoes]
    split <;> rfl

theorem rowCall_eq : (x.rowCall r).task = r.task ∧
    (r.status = .integrated → (x.rowCall r).undoes = false) ∧
    (r.status ≠ .integrated → (x.rowCall r).lands = false) := by
  simp only [Settlement.rowCall]
  split
  · rename_i hopens
    simp only [Settlement.opens, Bool.and_eq_true, decide_eq_true_eq] at hopens
    exact ⟨rfl, fun _ => rfl, fun hnot => absurd hopens.1 hnot⟩
  · refine ⟨rfl, ?_, ?_⟩
    · intro hstatus
      simp only [Call.undoes, Settlement.recorded, hstatus, if_true]
      rfl
    · intro hstatus
      simp only [Call.lands, Settlement.recorded, hstatus, if_false]
      rfl

theorem alone_mem {call : Call} (h : call ∈ x.alone r) :
    call.task = r.task ∧ (r.status = .integrated → call.undoes = false) ∧
      (r.status ≠ .integrated → call.lands = false) := by
  rw [← asked_eq, asked] at h
  split at h
  · rename_i hqueued
    have hnot : r.status ≠ .integrated := by
      rw [hqueued]
      decide
    split at h
    · rw [List.mem_singleton.mp h]
      exact ⟨rfl, fun hstatus => absurd hstatus hnot, fun _ => rfl⟩
    · rw [List.mem_singleton.mp h]
      exact ⟨rfl, fun hstatus => absurd hstatus hnot, fun _ => rfl⟩
  · split at h
    · cases h
    · rcases List.mem_cons.mp h with rfl | h
      · exact rowCall_eq
      · split at h
        · obtain ⟨htask, hundoes, hlands⟩ := leaseCalls_mem h
          exact ⟨htask, fun _ => hundoes, fun _ => hlands⟩
        · cases h

/-- Whether the `catch` or the `finally` makes such calls. -/
def Call.late : Call → Bool
  | .complete _ _ none => true
  | .finish _ _ .failed _ => true
  | _ => false

theorem alone_head (hstop : ¬ (r.status = .cancelled ∨ r.status = .paused)) :
    ∃ call calls, x.alone r = call :: calls ∧ call.late = false := by
  rw [← asked_eq, asked]
  split
  · split
    · exact ⟨_, _, rfl, rfl⟩
    · exact ⟨_, _, rfl, rfl⟩
  · refine ⟨_, _, rfl, ?_⟩
    simp only [Settlement.rowCall]
    split <;> rfl

theorem alone_stop (hstop : r.status = .cancelled ∨ r.status = .paused) : x.alone r = [] := by
  rw [← asked_eq, asked, if_neg, if_pos hstop]
  rcases hstop with hstop | hstop <;> rw [hstop] <;> decide

variable {task : String}

theorem filter_flatMap_other {rs : List Result} (h : ∀ r ∈ rs, r.task ≠ task) :
    ((rs.flatMap x.alone).filter fun call => call.task = task) = [] := by
  refine List.filter_eq_nil_iff.mpr fun call hcall => ?_
  obtain ⟨r, hr, hcall⟩ := List.mem_flatMap.mp hcall
  rw [(alone_mem hcall).1]
  simpa using h r hr

theorem filter_flatMap_own {rs : List Result} (hdistinct : (rs.map Result.task).Nodup)
    (hr : r ∈ rs) : ((rs.flatMap x.alone).filter fun call => call.task = r.task) = x.alone r := by
  obtain ⟨pre, post, rfl⟩ := List.append_of_mem hr
  rw [List.map_append, List.map_cons, List.nodup_append] at hdistinct
  obtain ⟨_, hpost, hpre⟩ := hdistinct
  have hbefore : ∀ r' ∈ pre, r'.task ≠ r.task := fun r' hr' =>
    hpre _ (List.mem_map_of_mem hr') _ List.mem_cons_self
  have hafter : ∀ r' ∈ post, r'.task ≠ r.task := by
    intro r' hr' htask
    exact (List.nodup_cons.mp hpost).1 (htask ▸ List.mem_map_of_mem hr')
  have hself : ((x.alone r).filter fun call => call.task = r.task) = x.alone r :=
    List.filter_eq_self.mpr fun call hcall => decide_eq_true (alone_mem hcall).1
  rw [List.flatMap_append, List.flatMap_cons, List.filter_append, List.filter_append,
    filter_flatMap_other hbefore, filter_flatMap_other hafter, hself, List.nil_append,
    List.append_nil]

theorem filter_catchCalls {queue : QueueStore} (hknown : ∃ claimed ∈ x.claimed, claimed.id = task) :
    ((catchCalls x queue).filter fun call => call.task = task) = [] ↔
      taskClaimed queue task = false := by
  constructor
  · intro h
    refine Bool.eq_false_iff.mpr fun hclaimed => ?_
    obtain ⟨claimed, hin, rfl⟩ := hknown
    refine List.filter_eq_nil_iff.mp h (.complete claimed.id .failed none) ?_ (decide_eq_true rfl)
    exact List.mem_map.mpr ⟨claimed, List.mem_filter.mpr ⟨hin, hclaimed⟩, rfl⟩
  · intro h
    refine List.filter_eq_nil_iff.mpr fun call hcall => ?_
    obtain ⟨claimed, hin, rfl⟩ := List.mem_map.mp hcall
    obtain ⟨_, hclaimed⟩ := List.mem_filter.mp hin
    intro htask
    have htask : claimed.id = task := of_decide_eq_true htask
    rw [htask, h] at hclaimed
    cases hclaimed

theorem filter_restCalls {leases : OrderedMap String String} :
    ((restCalls leases).filter fun call => call.task = task) = [] ↔ leases.get? task = none := by
  constructor
  · intro h
    cases hlease : leases.get? task with
    | none => rfl
    | some lease =>
      have hin : Call.finish task lease .failed Settlement.restDetail ∈ restCalls leases :=
        List.mem_map.mpr ⟨(task, lease), OrderedMap.get?_eq_some_iff.mp hlease, rfl⟩
      exact (List.filter_eq_nil_iff.mp h _ hin (decide_eq_true rfl)).elim
  · intro h
    refine List.filter_eq_nil_iff.mpr fun call hcall => ?_
    obtain ⟨⟨other, lease⟩, hin, rfl⟩ := List.mem_map.mp hcall
    intro htask
    have htask : other = task := of_decide_eq_true htask
    rw [htask] at hin
    rw [OrderedMap.get?_eq_some_iff.mpr hin] at h
    cases h

end Asked

/-! ## The main result -/

section Main

variable {x : Settlement} {r : Result}

def lateCalls (x : Settlement) : List Call :=
  (if (x.loop x.start x.results).2 then catchCalls x (x.loop x.start x.results).1.queue else []) ++
    restCalls (x.loop x.start x.results).1.leases

theorem lateCalls_late {call : Call} (h : call ∈ lateCalls x) :
    call.late = true ∧ call.lands = false := by
  rcases List.mem_append.mp h with h | h
  · split at h
    · obtain ⟨_, _, rfl⟩ := List.mem_map.mp h
      exact ⟨rfl, rfl⟩
    · cases h
  · obtain ⟨⟨_, _⟩, _, rfl⟩ := List.mem_map.mp h
    exact ⟨rfl, rfl⟩

theorem reached_distinct (x : Settlement) : ((reached x x.results).map Result.task).Nodup := by
  have hsub : (reached x x.results).Sublist x.results := by
    have happend := List.takeWhile_append_dropWhile (p := fun r => !x.refused r) (l := x.results)
    conv_rhs => rw [← happend]
    exact (List.take_sublist 1 _).append_left _
  exact x.distinct.sublist (hsub.map _)

theorem same_result {r r' : Result} (hr : r ∈ x.results) (hr' : r' ∈ x.results)
    (htask : r'.task = r.task) : r' = r :=
  List.inj_on_of_nodup_map x.distinct hr' hr htask

theorem never_lands (hr : r ∈ x.results) (hstatus : r.status ≠ .integrated) {call : Call}
    (hcall : call ∈ x.settle.1.calls) (htask : call.task = r.task) : call.lands = false := by
  rw [settle_calls] at hcall
  rcases List.mem_append.mp hcall with hcall | hcall
  · obtain ⟨r', hr', hcall⟩ := List.mem_flatMap.mp hcall
    obtain ⟨hown, _, hlands⟩ := alone_mem hcall
    obtain rfl := same_result hr (reached_subset x _ hr') (hown.symm.trans htask)
    exact hlands hstatus
  · exact (lateCalls_late hcall).2

theorem filter_calls (hr : r ∈ x.results) :
    (x.settle.1.calls.filter fun call => call.task = r.task) =
      (if r ∈ reached x x.results then x.alone r else []) ++
        (lateCalls x).filter fun call => call.task = r.task := by
  rw [settle_calls, List.filter_append]
  refine congrArg₂ (· ++ ·) ?_ rfl
  split
  · rename_i hin
    exact filter_flatMap_own (reached_distinct x) hin
  · rename_i hout
    refine filter_flatMap_other fun r' hr' htask => hout ?_
    exact same_result hr (reached_subset x _ hr') htask ▸ hr'

theorem undone_iff (hr : r ∈ x.results) (hstatus : r.status = .integrated) :
    (∀ call ∈ x.settle.1.calls, call.task = r.task → call.undoes = false) ↔
      ((x.loop x.start x.results).2 = true →
        taskClaimed (x.loop x.start x.results).1.queue r.task = false) := by
  constructor
  · intro h hthrew
    refine (filter_catchCalls (x := x) (x.known r hr)).mp (List.filter_eq_nil_iff.mpr ?_)
    intro call hcall htask
    have hundoes := h call ?_ (of_decide_eq_true htask)
    · obtain ⟨_, _, rfl⟩ := List.mem_map.mp hcall
      cases hundoes
    · rw [settle_calls, if_pos hthrew]
      exact List.mem_append_right _ (List.mem_append_left _ hcall)
  · intro h call hcall htask
    rw [settle_calls] at hcall
    rcases List.mem_append.mp hcall with hcall | hcall
    · obtain ⟨r', hr', hcall⟩ := List.mem_flatMap.mp hcall
      obtain ⟨hown, hundoes, _⟩ := alone_mem hcall
      obtain rfl := same_result hr (reached_subset x _ hr') (hown.symm.trans htask)
      exact hundoes hstatus
    · rcases List.mem_append.mp hcall with hcall | hcall
      · split at hcall
        · rename_i hthrew
          have hnone := (filter_catchCalls (x := x) (x.known r hr)).mpr (h hthrew)
          exact (List.filter_eq_nil_iff.mp hnone call hcall (decide_eq_true htask)).elim
        · cases hcall
      · obtain ⟨⟨_, _⟩, _, rfl⟩ := List.mem_map.mp hcall
        rfl

end Main

section Main

variable {x : Settlement} {r : Result}

/-- Nothing is asked for a task after the loop when its row is not claimed and its lease
is settled. -/
theorem late_nil (hr : r ∈ x.results) :
    ((lateCalls x).filter fun call => call.task = r.task) = [] ↔
      ((x.loop x.start x.results).2 = true →
        taskClaimed (x.loop x.start x.results).1.queue r.task = false) ∧
      (x.loop x.start x.results).1.leases.get? r.task = none := by
  rw [lateCalls, List.filter_append, List.append_eq_nil_iff, filter_restCalls]
  refine and_congr_left fun _ => ?_
  split
  · rename_i hthrew
    rw [filter_catchCalls (x.known r hr)]
    exact ⟨fun h _ => h, fun h => h hthrew⟩
  · rename_i hthrew
    exact ⟨fun _ h => absurd h hthrew, fun _ => rfl⟩

theorem mainline_append_rest (x : Settlement) : mainline x x.results ++ rest x x.results = x.results :=
  List.takeWhile_append_dropWhile

theorem refused_of_mainline (h : r ∈ mainline x x.results) : x.refused r = false := by
  have := List.mem_takeWhile_imp h
  simpa using this

theorem settled_of_rest_nil (hrest : rest x x.results = []) : SettledAsHappened x := by
  have hlooped := looped x x.results x.distinct (fun r _ => untouched_start x r.task) x.own
  have hthrew : (x.loop x.start x.results).2 = false := by
    rw [hlooped.threw, hrest]
    rfl
  have hall : ∀ r ∈ x.results, r ∈ mainline x x.results := by
    intro r hr
    have happend := mainline_append_rest x
    rw [hrest, List.append_nil] at happend
    rw [happend]
    exact hr
  refine ⟨?_, fun r hr hstatus call => never_lands hr hstatus, ?_⟩
  · intro r hr hstatus
    refine (undone_iff hr hstatus).mpr fun h => ?_
    rw [hthrew] at h
    cases h
  · intro r hr _
    have hlate := (late_nil hr).mpr
      ⟨fun h => absurd h (by rw [hthrew]; exact Bool.false_ne_true), hlooped.gone r (hall r hr)⟩
    have hin : r ∈ reached x x.results := List.mem_append_left _ (hall r hr)
    rw [filter_calls hr, if_pos hin, hlate, List.append_nil]

theorem settled_iff_of_rest {first : Result} {later : List Result}
    (hrest : rest x x.results = first :: later) :
    SettledAsHappened x ↔
      (first.status = .integrated → x.leftClaimed first = false) ∧
      (∀ r ∈ mainline x x.results, x.leftClaimed r = false) ∧
      ∀ r ∈ later,
        (x.refused r = true → r.status = .integrated → taskClaimed x.queue r.task = false) ∧
        (x.refused r = false → x.nothingDue r = true) := by
  have hlooped := looped x x.results x.distinct (fun r _ => untouched_start x r.task) x.own
  have hthrew : (x.loop x.start x.results).2 = true := by
    rw [hlooped.threw, hrest]
    rfl
  have hsplit : mainline x x.results ++ first :: later = x.results := by
    rw [← hrest]
    exact mainline_append_rest x
  have hreached : reached x x.results = mainline x x.results ++ [first] := by
    rw [reached, hrest]
    rfl
  have hrefused : x.refused first = true := by
    have hhead := List.head?_dropWhile_not (fun r => !x.refused r) x.results
    rw [show x.results.dropWhile (fun r => !x.refused r) = first :: later from hrest] at hhead
    simpa using hhead
  have hmain : ∀ r ∈ mainline x x.results, r ∈ x.results := fun r hr =>
    hsplit ▸ List.mem_append_left _ hr
  have hfirst : first ∈ x.results := hsplit ▸ List.mem_append_right _ List.mem_cons_self
  have hlater : ∀ r ∈ later, r ∈ x.results := fun r hr =>
    hsplit ▸ List.mem_append_right _ (List.mem_cons_of_mem _ hr)
  -- what comes after the refusal, the loop has not touched
  have hout : ∀ r ∈ later, ∀ r' ∈ reached x x.results, r'.task ≠ r.task := by
    intro r hr r' hr' htask
    have hdistinct := x.distinct
    rw [← hsplit, List.append_cons, ← hreached, List.map_append] at hdistinct
    exact (List.nodup_append.mp hdistinct).2.2 _ (List.mem_map_of_mem hr') _
      (List.mem_map_of_mem hr) htask
  have hrow : ∀ r ∈ later, taskClaimed (x.loop x.start x.results).1.queue r.task =
      taskClaimed x.queue r.task := fun r hr =>
    taskClaimed_of_tasks (hlooped.rows r.task (hout r hr))
  have hlease : ∀ r ∈ later, (x.loop x.start x.results).1.leases.get? r.task =
      x.leases.get? r.task := fun r hr => hlooped.leases r.task (hout r hr)
  have hnew : ∀ r ∈ later, r ∉ reached x x.results := fun r hr hin => hout r hr r hin rfl
  constructor
  · intro h
    refine ⟨?_, ?_, ?_⟩
    · intro hstatus
      have hin : first ∈ reached x x.results := by
        rw [hreached]
        exact List.mem_append_right _ (List.mem_singleton_self first)
      rw [← hlooped.left first hin]
      exact (undone_iff hfirst hstatus).mp (h.integrated first hfirst hstatus) hthrew
    · intro r hr
      have hin : r ∈ reached x x.results := List.mem_append_left _ hr
      have hcalls := h.alone r (hmain r hr) (refused_of_mainline hr)
      rw [filter_calls (hmain r hr), if_pos hin, List.append_right_eq_self] at hcalls
      rw [← hlooped.left r hin]
      exact ((late_nil (hmain r hr)).mp hcalls).1 hthrew
    · intro r hr
      refine ⟨?_, ?_⟩
      · intro _ hstatus
        rw [← hrow r hr]
        exact (undone_iff (hlater r hr) hstatus).mp (h.integrated r (hlater r hr) hstatus) hthrew
      · intro hgranted
        have hcalls := h.alone r (hlater r hr) hgranted
        rw [filter_calls (hlater r hr), if_neg (hnew r hr), List.nil_append] at hcalls
        have hstop : r.status = .cancelled ∨ r.status = .paused := by
          by_contra hnot
          obtain ⟨call, calls, halone, hearly⟩ := alone_head hnot
          have hin : call ∈ (lateCalls x).filter fun call => call.task = r.task := by
            rw [hcalls, halone]
            exact List.mem_cons_self
          rw [(lateCalls_late (List.mem_of_mem_filter hin)).1] at hearly
          cases hearly
        rw [alone_stop hstop] at hcalls
        obtain ⟨hclaimed, hgone⟩ := (late_nil (hlater r hr)).mp hcalls
        replace hclaimed := hclaimed hthrew
        rw [hrow r hr] at hclaimed
        rw [hlease r hr] at hgone
        simp only [Settlement.nothingDue, hclaimed, hgone, Bool.and_eq_true, Bool.or_eq_true,
          decide_eq_true_eq]
        exact ⟨⟨hstop, rfl⟩, rfl⟩
  · rintro ⟨hhead, hbefore, hafter⟩
    refine ⟨?_, fun r hr hstatus call => never_lands hr hstatus, ?_⟩
    · intro r hr hstatus
      refine (undone_iff hr hstatus).mpr fun _ => ?_
      rw [← hsplit] at hr
      rcases List.mem_append.mp hr with hr | hr
      · rw [hlooped.left r (List.mem_append_left _ hr)]
        exact hbefore r hr
      · rcases List.mem_cons.mp hr with rfl | hr
        · rw [hlooped.left r (by rw [hreached]; exact List.mem_append_right _ List.mem_cons_self)]
          exact hhead hstatus
        · rw [hrow r hr]
          obtain ⟨hwould, hdue⟩ := hafter r hr
          cases hgranted : x.refused r with
          | true => exact hwould hgranted hstatus
          | false =>
            have hnothing := hdue hgranted
            simp [Settlement.nothingDue, hstatus] at hnothing
    · intro r hr hgranted
      rw [filter_calls hr]
      rw [← hsplit] at hr
      rcases List.mem_append.mp hr with hr | hr
      · have hin : r ∈ reached x x.results := List.mem_append_left _ hr
        have hclaimed := (hlooped.left r hin).trans (hbefore r hr)
        rw [if_pos hin, (late_nil (hmain r hr)).mpr ⟨fun _ => hclaimed, hlooped.gone r hr⟩,
          List.append_nil]
      · rcases List.mem_cons.mp hr with rfl | hr
        · rw [hrefused] at hgranted
          cases hgranted
        · have hnothing := (hafter r hr).2 hgranted
          simp only [Settlement.nothingDue, Bool.and_eq_true, Bool.or_eq_true, decide_eq_true_eq,
            Bool.not_eq_true', Option.isNone_iff_eq_none] at hnothing
          obtain ⟨⟨hstop, hgone⟩, hclaimed⟩ := hnothing
          rw [if_neg (hnew r hr), alone_stop hstop, List.nil_append]
          exact (late_nil (hlater r hr)).mpr
            ⟨fun _ => (hrow r hr).trans hclaimed, (hlease r hr).trans hgone⟩

end Main

/-- **Each task is settled as what happened** exactly when no settlement is refused, or the
refusal finds nothing that it could spoil. -/
theorem settled_as_happened_iff (x : Settlement) : SettledAsHappened x ↔ x.undivided = true := by
  have hdrop : (x.results.dropWhile fun r => !x.refused r) = rest x x.results := rfl
  have htake : (x.results.takeWhile fun r => !x.refused r) = mainline x x.results := rfl
  cases hrest : rest x x.results with
  | nil =>
    have hundivided : x.undivided = true := by
      simp only [Settlement.undivided, hdrop, hrest]
    exact ⟨fun _ => hundivided, fun _ => settled_of_rest_nil hrest⟩
  | cons first later =>
    rw [settled_iff_of_rest hrest]
    simp only [Settlement.undivided, hdrop, htake, hrest, Bool.and_eq_true, Bool.not_eq_true',
      Bool.and_eq_false_imp, decide_eq_true_eq, List.all_eq_true, and_assoc]
    refine and_congr_right fun _ => and_congr_right fun _ => forall₂_congr fun r _ => ?_
    cases hrefused : x.refused r with
    | true => simp [imp_iff_not_or]
    | false => simp

def heldLease (id taskId : String) : WorkLease where
  id := id
  taskId := taskId
  repositoryId := "r"
  status := .active
  baseRevision := "b"
  expiresAt := 100

/-- Somebody retried the task `t` while its run was going on; its result is a failure, and
the task `u` integrated. -/
def retriedMeanwhile : Settlement where
  claimed := [{ id := "t" }, { id := "u" }]
  results := [⟨"t", .failed, "validation failed"⟩, ⟨"u", .integrated, "integrated"⟩]
  leases := .ofList [("t", "L1"), ("u", "L2")]
  queue :=
    { tasks := fun id =>
        if id = "t" then some ⟨.submitted, some "L1"⟩
        else if id = "u" then some ⟨.claimed, some "L2"⟩ else none
      leases := [heldLease "L1" "t", heldLease "L2" "u"] }
  runId := "run"
  stopped := fun _ => false
  now := fun _ => 0
  faults := fun _ => {}
  distinct := by decide
  known := by decide
  once := by
    intro a b lease ha hb
    have ha := OrderedMap.mem_of_get?_ofList ha
    have hb := OrderedMap.mem_of_get?_ofList hb
    simp only [List.mem_cons, Prod.mk.injEq, List.not_mem_nil, or_false] at ha hb
    rcases ha with ⟨rfl, rfl⟩ | ⟨rfl, rfl⟩
    · exact (hb.resolve_right fun hother => absurd hother.2 (by decide)).1.symm
    · exact (hb.resolve_left fun hother => absurd hother.2 (by decide)).1.symm
  own := by
    intro task lease hlease row hrow hid
    have hlease := OrderedMap.mem_of_get?_ofList hlease
    simp only [List.mem_cons, Prod.mk.injEq, List.not_mem_nil, or_false] at hlease hrow
    rcases hlease with ⟨rfl, rfl⟩ | ⟨rfl, rfl⟩
    · rcases hrow with rfl | rfl
      · rfl
      · exact absurd hid (by decide)
    · rcases hrow with rfl | rfl
      · exact absurd hid (by decide)
      · rfl

/-- The integrated task is recorded as failed. -/
theorem integrated_recorded_failed :
    (.complete "u" .failed none ∈ retriedMeanwhile.settle.1.calls ∧
        statusOf retriedMeanwhile.settle.1.queue "u" = some .failed) ∧
      ¬ ∀ x, SettledAsHappened x := by
  have hcall : .complete "u" .failed none ∈ retriedMeanwhile.settle.1.calls := by decide
  refine ⟨⟨hcall, by decide⟩, fun hall => ?_⟩
  have hundoes := (hall retriedMeanwhile).integrated ⟨"u", .integrated, "integrated"⟩
    (List.mem_cons_of_mem _ List.mem_cons_self) rfl _ hcall rfl
  cases hundoes

end AgenticGit.Cli.RunSettlement
