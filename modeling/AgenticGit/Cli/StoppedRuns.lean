import AgenticGit.Lib.OrderedMap
import AgenticGit.Cli.PromotedOnce

/- Stops and runs in one process: `cancelTasks`, `pauseTasks`, `resumeTasks`,
   `taskRetry` and `runPendingTasks` (`commands.ts`) over one
   `TaskCancellationRegistry` (`task-cancellation.ts`), with the wave loop of `execute`
   (`coordinator.ts`) as far as it reads the registry.

   Correspondence (TypeScript ↔ Lean):
     `reasons`, `MAX_REASONS`, the loop that evicts ↔ `reasons`, `maxReasons`, `record`
     `cancelSubmittedTask` / `pauseSubmittedTask` of a stop, then
       `TaskCancellationRegistry.stop`        ↔ `stopAsked`, then `stopRecorded`
     the release of the stopped task's lease, the finish of a settled one and the
       `finally` of a run                     ↔ `finishWorkLease`, of any lease, at any time
     `leaseQueuedWork`, `claimSubmittedTasks` ↔ `leasedNext`, `claimedAll`, `handedBack`
     `planTasks`, the head of the wave loop, `prepareTask` ↔ `Walk.planned`, `checkpoint`,
       `started`; a task a wave does not admit is `Walk.deferred`
     the `catch` of `prepareTask`             ↔ `threwInside`
     `cancelFailedDependents`                 ↔ `Walk.dependencyCancelled`
     the settlement loop and the `catch` of `runPendingTasks` ↔ `settled`, `threw`,
       `caught`, `failedOne`
   Aborting a live session makes its execution throw, which it may do at any time. Of a
   result, only what the settlement reads is kept. `asked`, `since`, `stopped`,
   `startedStopped` and `stoppedAgain` are for the statements.

   What is proved:
     1. `kept_step` — a stop that is recorded, or on its way to be, keeps its task from
        being claimed, and every claimed task is owed an ending by a run in progress.
     2. `stops_obeyed` — under the conditions of `undisturbed`, a stop is obeyed, a resume
        undoes a pause, and no run leaves a claimed task behind.
     3. `stopped_again` — the registry is not told of a resume: the run that takes the
        resumed task stops it again, and leaves it claimed. -/
namespace AgenticGit.Cli.StoppedRuns
open AgenticGit.Runs AgenticGit.Persistence AgenticGit.Cli.ResultCalls

/-! ## The registry -/

inductive StopIntent where
  | cancel | pause
  deriving DecidableEq, Repr

structure RecordedStop where
  reason : String
  intent : StopIntent
  /-- How many stops had been asked for before it. -/
  asked : Nat
  deriving DecidableEq, Repr

def maxReasons : Nat := 512

/-- `reasons` after a stop: the oldest entries go when there are too many. -/
def record (reasons : OrderedMap String RecordedStop) (taskId : String) (stop : RecordedStop) :
    OrderedMap String RecordedStop :=
  (reasons.set taskId stop).keepLast maxReasons

/-! ## Runs -/

/-- What the settlement reads of a result that no stop explains. -/
inductive Outcome where
  | integrated | failed | queued
  deriving DecidableEq, Repr

inductive Phase where
  /-- Claimed, and being planned. -/
  | leased
  /-- Waiting for the next wave. -/
  | pending
  /-- In the wave's making: the head of the loop has let it through. -/
  | cleared
  | executing
  | reported (outcome : Outcome)
  /-- Reported `cancelled` or `paused`, by its stop. -/
  | stopped (stop : RecordedStop)
  /-- Reported `cancelled`: a task it depends on did not integrate. -/
  | dependent
  /-- To be completed as failed by the `catch`. -/
  | failing
  | settled
  deriving DecidableEq, Repr

structure Holding where
  task : String
  lease : Option String
  /-- How many stops had been asked for when the run claimed it. -/
  since : Nat
  phase : Phase := .leased
  /-- Whether the last call about the task, while the run held it, stopped it. -/
  stopped : Bool := false
  deriving DecidableEq, Repr

inductive Mode where
  | leasing | running
  /-- The run threw; about to list its claimed tasks, to complete them. -/
  | catching | failing
  | ended
  deriving DecidableEq, Repr

structure Run where
  mode : Mode := .leasing
  tasks : List Holding := []
  deriving DecidableEq, Repr

structure System where
  queue : QueueStore := {}
  reasons : OrderedMap String RecordedStop := .empty
  /-- The stops whose task has its row, and that are not yet recorded. -/
  stops : List (String × RecordedStop) := []
  asks : Nat := 0
  runs : List Run := []
  startedStopped : List String := []
  stoppedAgain : List String := []

/-- A task's way through a run, apart from the stops. -/
inductive Walk where
  | planned | planFailed | deferred
  | executed (outcome : Outcome)
  | dependencyCancelled
  deriving DecidableEq, Repr

def walk : Walk → Phase → Option Phase
  | .planned, .leased => some .pending
  | .planFailed, .leased => some (.reported .failed)
  | .deferred, .cleared => some .pending
  | .executed outcome, .executing => some (.reported outcome)
  | .dependencyCancelled, .pending => some .dependent
  | _, _ => none

inductive Event where
  | submitTask (id : String) (planOnly : Bool) (openTurns : List String)
  | stopAsked (id : String) (intent : StopIntent) (reason : String)
  | stopRecorded (i : Nat)
  | resumed (id : String)
  | retried (id : String)
  | finishWorkLease (id : String) (status : WorkLeaseStatus) (now : Int)
  | heartbeatWorkLease (id : String) (heartbeatAt expiresAt : Int)
  | expireWorkLeases (now : Int)
  | runStarted
  | leasedNext (r : Nat) (now : Int) (lease : WorkLease)
  | claimedAll (r : Nat) (ids : List String)
  | handedBack (r k : Nat)
  | runBegan (r : Nat)
  | walked (r k : Nat) (way : Walk)
  | checkpoint (r k : Nat)
  | started (r k : Nat)
  | threwInside (r k : Nat)
  /-- One result settled; `turn` when its task is a turn of a conversation. -/
  | settled (r k : Nat) (now : Int) (turn : Bool)
  | threw (r : Nat)
  | caught (r : Nat)
  | failedOne (r k : Nat)
  | ended (r : Nat)
  deriving DecidableEq, Repr

/-! ## Steps -/

/-- The last call about a task stopped it, or did not. -/
def System.mark (s : System) (id : String) (stopped : Bool) : System :=
  { s with runs := s.runs.map fun run =>
      { run with tasks := run.tasks.map fun held =>
          if held.task = id then { held with stopped } else held } }

def System.holding (s : System) (r k : Nat) : Option (Run × Holding) :=
  (s.runs[r]?).bind fun run => (run.tasks[k]?).map fun held => (run, held)

def System.setRun (s : System) (r : Nat) (run : Run) : System :=
  { s with runs := s.runs.set r run }

def System.setHolding (s : System) (r k : Nat) (run : Run) (held : Holding) : System :=
  s.setRun r { run with tasks := run.tasks.set k held }

def stopRow (queue : QueueStore) (id : String) : StopIntent → Option QueueStore
  | .cancel => queue.cancelSubmittedTask id
  | .pause => queue.pauseSubmittedTask id

def System.report (s : System) (r k : Nat) (run : Run) (held : Holding) (stop : RecordedStop) :
    System :=
  let s' := s.setHolding r k run { held with phase := .stopped stop }
  if stop.asked < held.since then { s' with stoppedAgain := s.stoppedAgain ++ [held.task] } else s'

/-- One turn of the settlement loop, for a result that no stop explains; `none` when it
throws. -/
def settle (queue : QueueStore) (held : Holding) (stopped : Bool) (now : Int) (turn : Bool) :
    Outcome → Option QueueStore
  | .queued =>
    match held.lease with
    | none => queue.retrySubmittedTask held.task
    | some lease =>
      match queue.finishWorkLease lease .released now with
      | (released, true) => some released
      | (_, false) => none
  | .integrated =>
    let ended :=
      if turn then queue.openSubmittedTask held.task
      else queue.completeSubmittedTask held.task .integrated
    if stopped then some (ended.getD queue) else ended
  | .failed =>
    let ended := queue.completeSubmittedTask held.task .failed
    if stopped then some (ended.getD queue) else ended

def Phase.underWay : Phase → Bool
  | .leased => true
  | .pending => true
  | .cleared => true
  | .executing => true
  | _ => false

def Phase.over : Phase → Bool
  | .stopped _ => true
  | .dependent => true
  | .settled => true
  | _ => false

def step (s : System) : Event → Option System
  | .submitTask id planOnly openTurns =>
    if (s.queue.tasks id).isNone then
      some { s with queue := s.queue.submitTask id planOnly openTurns }
    else none
  | .stopAsked id intent reason =>
    some (match stopRow s.queue id intent with
      | some queue =>
        { s with
          queue
          stops := s.stops ++ [(id, ⟨reason, intent, s.asks⟩)]
          asks := s.asks + 1 }
      -- settled between the listing and now
      | none => s)
  | .stopRecorded i =>
    (s.stops[i]?).map fun (id, stop) =>
      { s.mark id true with
        reasons := record s.reasons id stop
        stops := s.stops.eraseIdx i }
  | .resumed id =>
    some (match s.queue.resumePausedTask id with
      | some queue => { s.mark id false with queue }
      | none => s)
  | .retried id =>
    some (match s.queue.retrySubmittedTask id with
      | some queue => { s.mark id false with queue }
      | none => s)
  | .finishWorkLease id status now =>
    if status = .active then none
    else some { s with queue := (s.queue.finishWorkLease id status now).1 }
  | .heartbeatWorkLease id heartbeatAt expiresAt =>
    some { s with queue := s.queue.heartbeatWorkLease id heartbeatAt expiresAt }
  | .expireWorkLeases now => some { s with queue := s.queue.expireWorkLeases now }
  | .runStarted => some { s with runs := s.runs ++ [{}] }
  | .leasedNext r now lease =>
    match s.runs[r]? with
    | some run =>
      if run.mode = .leasing ∧ lease.status = .active ∧
          (s.queue.leases.all fun old => old.id ≠ lease.id) then
        some (match s.queue.leaseNextTask now lease with
          | some queue =>
            if lease ∈ queue.leases then
              let held := { task := lease.taskId, lease := some lease.id, since := s.asks }
              { s.setRun r { run with tasks := run.tasks ++ [held] } with queue }
            else { s with queue }
          -- `runPendingTasks` throws, outside its `try`
          | none => s.setRun r { run with mode := .ended })
      else none
    | none => none
  | .claimedAll r ids =>
    match s.runs[r]? with
    | some run =>
      if run = {} then
        let ids := ids.filter fun id => s.queue.changes id [.submitted]
        let tasks := ids.map fun id => { task := id, lease := none, since := s.asks }
        some { s.setRun r { tasks } with queue := s.queue.claimSubmittedTasks ids }
      else none
    | none => none
  | .handedBack r k =>
    match s.holding r k with
    | some (run, held) =>
      if run.mode = .leasing ∧ held.lease = none then
        some { s.setRun r { run with tasks := run.tasks.eraseIdx k } with
          queue := (s.queue.retrySubmittedTask held.task).getD s.queue }
      else none
    | none => none
  | .runBegan r =>
    match s.runs[r]? with
    | some run => if run.mode = .leasing then some (s.setRun r { run with mode := .running }) else none
    | none => none
  | .walked r k way =>
    match s.holding r k with
    | some (run, held) =>
      if run.mode = .running then
        (walk way held.phase).map fun phase => s.setHolding r k run { held with phase }
      else none
    | none => none
  | .checkpoint r k =>
    match s.holding r k with
    | some (run, held) =>
      if run.mode = .running ∧ held.phase = .pending then
        some (match s.reasons.get? held.task with
          | some stop => s.report r k run held stop
          | none => s.setHolding r k run { held with phase := .cleared })
      else none
    | none => none
  | .started r k =>
    match s.holding r k with
    | some (run, held) =>
      if run.mode = .running ∧ held.phase = .cleared then
        let s' := s.setHolding r k run { held with phase := .executing }
        some (if held.stopped then { s' with startedStopped := s.startedStopped ++ [held.task] }
          else s')
      else none
    | none => none
  | .threwInside r k =>
    match s.holding r k with
    | some (run, held) =>
      if run.mode = .running ∧ held.phase = .executing then
        some (match s.reasons.get? held.task with
          | some stop => s.report r k run held stop
          | none => s.setHolding r k run { held with phase := .reported .failed })
      else none
    | none => none
  | .settled r k now turn =>
    match s.holding r k with
    | some (run, held) =>
      match held.phase with
      | .reported outcome =>
        if run.mode = .running ∧ (run.tasks.all fun held => !held.phase.underWay) then
          some (match settle s.queue held (s.reasons.has held.task) now turn outcome with
            | some queue =>
              { s.setHolding r k run { held with phase := .settled } with queue }
            | none => s.setRun r { run with mode := .catching })
        else none
      | _ => none
    | none => none
  | .threw r =>
    match s.runs[r]? with
    | some run =>
      if run.mode = .running then some (s.setRun r { run with mode := .catching }) else none
    | none => none
  | .caught r =>
    match s.runs[r]? with
    | some run =>
      if run.mode = .catching then
        some (s.setRun r
          { mode := .failing
            tasks := run.tasks.map fun held =>
              { held with phase := if taskClaimed s.queue held.task then .failing else .settled } })
      else none
    | none => none
  | .failedOne r k =>
    match s.holding r k with
    | some (run, held) =>
      if run.mode = .failing ∧ held.phase = .failing then
        some { s.setHolding r k run { held with phase := .settled } with
          queue := (s.queue.completeSubmittedTask held.task .failed).getD s.queue }
      else none
    | none => none
  | .ended r =>
    match s.runs[r]? with
    | some run =>
      if (run.mode = .running ∨ run.mode = .failing) ∧
          (run.tasks.all fun held => held.phase.over) then
        some (s.setRun r { run with mode := .ended })
      else none
    | none => none

/-! ## What is promised -/

/-- Whether the run is going to give the task an ending, while it is claimed. -/
def Run.owes (run : Run) (held : Holding) : Bool :=
  match run.mode with
  | .leasing => true
  | .running => !held.phase.over
  | .catching => true
  | .failing => held.phase = .failing
  | .ended => false

/-- Stops are obeyed, resumes undo pauses, and runs leave nothing claimed. -/
structure Obeyed (s : System) : Prop where
  /-- A task whose last call stopped it, while a run held it, starts no wave in that run. -/
  obeyed : s.startedStopped = []
  /-- A run stops a task for no stop that was asked for before it claimed the task. -/
  undone : s.stoppedAgain = []
  /-- What a run that has ended leaves claimed, another run is at work on. -/
  none_left : ∀ run ∈ s.runs, run.mode = .ended → ∀ held ∈ run.tasks,
    taskClaimed s.queue held.task = true →
      ∃ other ∈ s.runs, ∃ own ∈ other.tasks, own.task = held.task ∧ other.owes own = true

/-! ## When it is kept -/

/-- Whether a stop of the task is recorded, or on its way to be. -/
def System.stopped (s : System) (id : String) : Bool :=
  s.reasons.has id || s.stops.any fun stop => stop.1 = id

/-- Whether the run has the task and has not started to execute it. -/
def Run.awaits (run : Run) (held : Holding) : Bool :=
  (run.mode = .leasing || run.mode = .running) &&
    (held.phase = .leased || held.phase = .pending || held.phase = .cleared)

/-- No run takes a task the registry still has a stop for; the registry forgets no stop of
a task that a run has still to start; no stop comes between the head of a wave and its
start; no task is cancelled for one it depends on; and no run throws in the middle of
leasing. -/
def undisturbed (s : System) : Event → Bool
  | .leasedNext r now lease =>
    match s.queue.leaseNextTask now lease with
    | some queue => lease ∉ queue.leases || !s.stopped lease.taskId
    | none => (s.runs[r]?).all fun run => run.tasks.isEmpty
  | .claimedAll _ ids => ids.all fun id => !s.queue.changes id [.submitted] || !s.stopped id
  | .stopRecorded i =>
    (s.stops[i]?).all fun (id, stop) =>
      s.runs.all fun run => run.tasks.all fun held =>
        !(run.awaits held && (s.reasons.set id stop).has held.task) ||
          (record s.reasons id stop).has held.task
  | .started r k => (s.holding r k).all fun (_, held) => !s.reasons.has held.task
  | .walked _ _ way => way ≠ .dependencyCancelled
  | _ => true

def Undisturbed (s : System) (event : Event) : Prop := undisturbed s event = true

instance (s : System) : DecidablePred (Undisturbed s) := fun event =>
  inferInstanceAs (Decidable (undisturbed s event = true))

/-! ## What the steps keep -/

def Fewer (queue queue' : QueueStore) : Prop :=
  (∀ id, taskClaimed queue' id = true → taskClaimed queue id = true) ∧ queue.Later queue'

section Queue

variable {queue queue' : QueueStore}

variable {status : SubmittedTaskStatus} {among : List SubmittedTaskStatus}

theorem fewer_updateWhere (queue : QueueStore) (ids : String → Bool)
    (among : List SubmittedTaskStatus) (hstatus : status ≠ .claimed) :
    Fewer queue (queue.updateWhere ids among status) := by
  refine ⟨?_, QueueStore.later_of_eq rfl⟩
  intro id h
  exact taskClaimed_iff.mpr (claimed_updateWhere hstatus (taskClaimed_iff.mp h))

theorem fewer_update (queue : QueueStore) (id : String) (among : List SubmittedTaskStatus)
    (hstatus : status ≠ .claimed) : Fewer queue (queue.update id among status) :=
  fewer_updateWhere queue _ among hstatus

theorem fewer_finishWorkLease (queue : QueueStore) (id : String) (status : WorkLeaseStatus)
    (now : Int) : Fewer queue (queue.finishWorkLease id status now).1 := by
  refine ⟨?_, QueueStore.later_finishWorkLease queue id status now⟩
  intro id h
  exact taskClaimed_iff.mpr (claimed_finishWorkLease _ status now (taskClaimed_iff.mp h))

theorem fewer_expireWorkLeases (queue : QueueStore) (now : Int) :
    Fewer queue (queue.expireWorkLeases now) := by
  refine ⟨?_, QueueStore.later_expireWorkLeases queue now⟩
  intro id h
  have hstatus : SubmittedTaskStatus.submitted ≠ .claimed := by decide
  exact taskClaimed_iff.mpr (claimed_updateWhere hstatus (taskClaimed_iff.mp h))

theorem fewer_heartbeatWorkLease (queue : QueueStore) (id : String) (heartbeatAt expiresAt : Int) :
    Fewer queue (queue.heartbeatWorkLease id heartbeatAt expiresAt) := by
  refine ⟨?_, QueueStore.later_heartbeatWorkLease queue id heartbeatAt expiresAt⟩
  intro id h
  simp only [QueueStore.heartbeatWorkLease] at h
  split at h
  · exact h
  · exact h

theorem fewer_submitTask (queue : QueueStore) (id : String) (planOnly : Bool)
    (openTurns : List String) : Fewer queue (queue.submitTask id planOnly openTurns) := by
  refine ⟨?_, QueueStore.later_of_eq rfl⟩
  intro other h
  have hclaimed := taskClaimed_iff.mp h
  by_cases hid : other = id
  · cases hid
    simp only [QueueStore.submitTask, statusOf, Function.update_self] at hclaimed
    cases planOnly <;> cases hclaimed
  · simp only [QueueStore.submitTask, statusOf, Function.update_of_ne hid] at hclaimed
    exact taskClaimed_iff.mpr (claimed_updateWhere (by decide) hclaimed)

theorem getD_unclaimed {id : String} (hamong : .claimed ∈ among) (hstatus : status ≠ .claimed)
    {ended : Option QueueStore}
    (hended : ended = if queue.changes id among then some (queue.update id among status) else none) :
    Fewer queue (ended.getD queue) ∧ taskClaimed (ended.getD queue) id = false := by
  rw [hended, QueueStore.getD_update]
  exact ⟨fewer_update queue id among hstatus, unclaimed_update hamong hstatus⟩

theorem retried_unclaimed (queue : QueueStore) (id : String) :
    Fewer queue ((queue.retrySubmittedTask id).getD queue) ∧
      taskClaimed ((queue.retrySubmittedTask id).getD queue) id = false :=
  getD_unclaimed (by decide) (by decide) rfl

theorem failed_unclaimed (queue : QueueStore) (id : String) :
    Fewer queue ((queue.completeSubmittedTask id .failed).getD queue) ∧
      taskClaimed ((queue.completeSubmittedTask id .failed).getD queue) id = false :=
  getD_unclaimed (List.mem_singleton_self _) (by decide) rfl

theorem some_unclaimed {id : String} (hamong : .claimed ∈ among) (hstatus : status ≠ .claimed)
    (hended : (if queue.changes id among then some (queue.update id among status) else none) =
      some queue') : Fewer queue queue' ∧ taskClaimed queue' id = false := by
  obtain ⟨_, hended⟩ := Option.ite_none_right_eq_some.mp hended
  cases hended
  exact ⟨fewer_update queue id among hstatus, unclaimed_update hamong hstatus⟩

theorem stopRow_unclaimed {id : String} {intent : StopIntent}
    (h : stopRow queue id intent = some queue') :
    Fewer queue queue' ∧ taskClaimed queue' id = false := by
  cases intent with
  | cancel => exact some_unclaimed (by decide) (by decide) h
  | pause => exact some_unclaimed (by decide) (by decide) h

theorem settle_unclaimed {held : Holding} {stopped : Bool} {now : Int} {turn : Bool}
    {outcome : Outcome} (hown : ∀ id, held.lease = some id →
      ∀ lease ∈ queue.leases, lease.id = id → lease.taskId = held.task)
    (h : settle queue held stopped now turn outcome = some queue') :
    Fewer queue queue' ∧ taskClaimed queue' held.task = false := by
  have complete : ∀ (ended : Option QueueStore),
      (∃ status, status ≠ SubmittedTaskStatus.claimed ∧
        ended = if queue.changes held.task [.claimed] then
          some (queue.update held.task [.claimed] status) else none) →
      (if stopped then some (ended.getD queue) else ended) = some queue' →
      Fewer queue queue' ∧ taskClaimed queue' held.task = false := by
    rintro ended ⟨status, hstatus, hended⟩ h
    split at h
    · cases h
      exact getD_unclaimed (List.mem_singleton_self _) hstatus hended
    · rw [hended] at h
      exact some_unclaimed (List.mem_singleton_self _) hstatus h
  cases outcome with
  | queued =>
    simp only [settle] at h
    split at h
    · exact some_unclaimed (by decide) (by decide) h
    · rename_i id hid
      split at h
      · rename_i released hreleased
        cases h
        have hfewer := fewer_finishWorkLease queue id .released now
        rw [hreleased] at hfewer
        refine ⟨hfewer, ?_⟩
        obtain ⟨lease, hlease, hleaseId, _, _, _, htasks⟩ :=
          QueueStore.finishWorkLease_true hreleased
        rw [if_pos (.inl rfl), hown id hid lease hlease hleaseId] at htasks
        show taskClaimed queue' held.task = false
        rw [taskClaimed, QueueStore.changes, htasks]
        exact unclaimed_update (List.mem_singleton_self _) (by decide)
      · cases h
  | integrated =>
    refine complete _ ?_ h
    split
    · exact ⟨.open, by decide, rfl⟩
    · exact ⟨.integrated, by decide, rfl⟩
  | failed => exact complete _ ⟨.failed, by decide, rfl⟩ h

end Queue

/-! ## The invariant -/

structure Fits (asks : Nat) (reasons : OrderedMap String RecordedStop)
    (stops : List (String × RecordedStop)) (leases : List WorkLease) (run : Run)
    (held : Holding) : Prop where
  since : held.since ≤ asks
  recorded : ∀ stop, reasons.get? held.task = some stop → held.since ≤ stop.asked
  coming : ∀ stop, (held.task, stop) ∈ stops → held.since ≤ stop.asked
  heard : held.stopped = true → run.awaits held = true → reasons.has held.task = true
  begun : run.mode = .leasing → held.phase = .leased
  present : ∀ id, held.lease = some id → ∃ lease ∈ leases, lease.id = id
  own : ∀ id, held.lease = some id → ∀ lease ∈ leases, lease.id = id → lease.taskId = held.task

def System.Fits (s : System) (run : Run) (held : Holding) : Prop :=
  StoppedRuns.Fits s.asks s.reasons s.stops s.queue.leases run held

structure Kept (s : System) : Prop where
  quiet : ∀ id, s.stopped id = true → taskClaimed s.queue id = false
  owed : ∀ id, taskClaimed s.queue id = true →
    ∃ run ∈ s.runs, ∃ held ∈ run.tasks, held.task = id ∧ run.owes held = true
  fits : ∀ run ∈ s.runs, ∀ held ∈ run.tasks, s.Fits run held
  started : s.startedStopped = []
  again : s.stoppedAgain = []

theorem kept_init : Kept {} where
  quiet _ h := by cases h
  owed _ h := by cases h
  fits _ hrun := absurd hrun List.not_mem_nil
  started := rfl
  again := rfl

theorem stopped_iff {s : System} {id : String} :
    s.stopped id = true ↔ s.reasons.has id = true ∨ ∃ stop, (id, stop) ∈ s.stops := by
  simp only [System.stopped, Bool.or_eq_true, List.any_eq_true, decide_eq_true_eq]
  refine or_congr_right ⟨?_, ?_⟩
  · rintro ⟨⟨id, stop⟩, hstop, rfl⟩
    exact ⟨stop, hstop⟩
  · rintro ⟨stop, hstop⟩
    exact ⟨(id, stop), hstop, rfl⟩

theorem holding_eq_some {s : System} {r k : Nat} {run : Run} {held : Holding}
    (h : s.holding r k = some (run, held)) : s.runs[r]? = some run ∧ run.tasks[k]? = some held := by
  obtain ⟨run', hrun, h⟩ := Option.bind_eq_some_iff.mp h
  obtain ⟨held', hheld, h⟩ := Option.map_eq_some_iff.mp h
  cases h
  exact ⟨hrun, hheld⟩

theorem Fits.phase {asks : Nat} {reasons : OrderedMap String RecordedStop}
    {stops : List (String × RecordedStop)} {leases : List WorkLease} {run run' : Run}
    {held : Holding} (h : Fits asks reasons stops leases run held) (phase : Phase)
    (hawaits : run'.awaits { held with phase } = true → run.awaits held = true)
    (hmode : run'.mode ≠ .leasing) :
    Fits asks reasons stops leases run' { held with phase } where
  since := h.since
  recorded := h.recorded
  coming := h.coming
  heard hstopped hnew := h.heard hstopped (hawaits hnew)
  begun hleasing := absurd hleasing hmode
  present := h.present
  own := h.own

section Kept

variable {s : System}

variable {queue : QueueStore} {id : String}

theorem kept_queue (h : Kept s) (hfewer : Fewer s.queue queue) : Kept { s with queue } := by
  obtain ⟨hclaims, f, hf, hleases⟩ := hfewer
  refine ⟨?_, ?_, ?_, h.started, h.again⟩
  · intro id hstopped
    refine Bool.eq_false_iff.mpr fun hclaimed => ?_
    exact Bool.eq_false_iff.mp (h.quiet id hstopped) (hclaims id hclaimed)
  · exact fun id hclaimed => h.owed id (hclaims id hclaimed)
  · intro run hrun held hheld
    have hold := h.fits run hrun held hheld
    refine ⟨hold.since, hold.recorded, hold.coming, hold.heard, hold.begun, ?_, ?_⟩
    · intro id hid
      obtain ⟨lease, hlease, hleaseId⟩ := hold.present id hid
      refine ⟨f lease, ?_, (hf lease).id.trans hleaseId⟩
      show f lease ∈ queue.leases
      rw [hleases]
      exact List.mem_map_of_mem hlease
    · intro id hid lease hlease hleaseId
      change lease ∈ queue.leases at hlease
      rw [hleases] at hlease
      obtain ⟨old, hold', rfl⟩ := List.mem_map.mp hlease
      exact (hf old).taskId.trans (hold.own id hid old hold' ((hf old).id.symm.trans hleaseId))

theorem owed_set {r : Nat} {run run' : Run} (hrun : s.runs[r]? = some run)
    (howes : ∀ held ∈ run.tasks, held.task = id → run.owes held = true →
      ∃ own ∈ run'.tasks, own.task = id ∧ run'.owes own = true)
    (h : ∃ run ∈ s.runs, ∃ held ∈ run.tasks, held.task = id ∧ run.owes held = true) :
    ∃ run ∈ s.runs.set r run', ∃ held ∈ run.tasks, held.task = id ∧ run.owes held = true := by
  obtain ⟨hlt, hget⟩ := List.getElem?_eq_some_iff.mp hrun
  obtain ⟨other, hother, held, hheld, htask, hholds⟩ := h
  obtain ⟨i, hi, rfl⟩ := List.getElem_of_mem hother
  by_cases hir : r = i
  · cases hir
    rw [hget] at hheld hholds
    exact ⟨run', List.mem_set hlt run', howes held hheld htask hholds⟩
  · refine ⟨s.runs[i], ?_, held, hheld, htask, hholds⟩
    exact List.mem_of_getElem? ((List.getElem?_set_ne hir).trans (List.getElem?_eq_getElem hi))

theorem kept_setRun (h : Kept s) {r : Nat} {run : Run} (run' : Run) (hrun : s.runs[r]? = some run)
    (hfits : ∀ held ∈ run'.tasks, s.Fits run' held)
    (howes : ∀ held ∈ run.tasks, run.owes held = true → taskClaimed s.queue held.task = true →
      ∃ own ∈ run'.tasks, own.task = held.task ∧ run'.owes own = true) : Kept (s.setRun r run') := by
  refine ⟨h.quiet, ?_, ?_, h.started, h.again⟩
  · intro id hclaimed
    refine owed_set hrun ?_ (h.owed id hclaimed)
    rintro held hheld rfl hholds
    exact howes held hheld hholds hclaimed
  · intro other hother
    rcases List.mem_or_eq_of_mem_set hother with hother | rfl
    · exact h.fits other hother
    · exact hfits

theorem kept_setHolding (h : Kept s) {r k : Nat} {run : Run} {held : Holding} (held' : Holding)
    (hholding : s.holding r k = some (run, held))
    (htask : held'.task = held.task) (hfits : s.Fits run held → s.Fits run held')
    (howes : run.owes held = true → taskClaimed s.queue held.task = true → run.owes held' = true) :
    Kept (s.setHolding r k run held') := by
  obtain ⟨hrun, hheld⟩ := holding_eq_some hholding
  obtain ⟨hlt, hget⟩ := List.getElem?_eq_some_iff.mp hheld
  have hmem := List.mem_of_getElem? hrun
  refine kept_setRun h _ hrun ?_ ?_
  · intro other hother
    rcases List.mem_or_eq_of_mem_set hother with hother | rfl
    · have hold := h.fits run hmem other hother
      exact ⟨hold.since, hold.recorded, hold.coming, hold.heard, hold.begun, hold.present, hold.own⟩
    · have hnew := hfits (h.fits run hmem held (List.mem_of_getElem? hheld))
      exact ⟨hnew.since, hnew.recorded, hnew.coming, hnew.heard, hnew.begun, hnew.present, hnew.own⟩
  · intro other hother hholds hclaimed
    obtain ⟨i, hi, rfl⟩ := List.getElem_of_mem hother
    by_cases hik : k = i
    · cases hik
      rw [hget] at hholds hclaimed ⊢
      exact ⟨held', List.mem_set hlt held', htask, howes hholds hclaimed⟩
    · refine ⟨run.tasks[i], ?_, rfl, hholds⟩
      exact List.mem_of_getElem? ((List.getElem?_set_ne hik).trans (List.getElem?_eq_getElem hi))

theorem kept_mark (h : Kept s) (id : String) (stopped : Bool)
    (hheard : stopped = true → ∀ run ∈ s.runs, ∀ held ∈ run.tasks, held.task = id →
      run.awaits held = true → s.reasons.has id = true) : Kept (s.mark id stopped) := by
  refine ⟨h.quiet, ?_, ?_, h.started, h.again⟩
  · intro other hclaimed
    obtain ⟨run, hrun, held, hheld, rfl, howes⟩ := h.owed other hclaimed
    refine ⟨_, List.mem_map_of_mem hrun, _, List.mem_map_of_mem hheld, ?_, ?_⟩
    · simp only [apply_ite Holding.task, ite_self]
    · simp only [Run.owes, apply_ite Holding.phase, ite_self] at howes ⊢
      exact howes
  · intro run hrun held hheld
    obtain ⟨old, hin, rfl⟩ := List.mem_map.mp hrun
    obtain ⟨was, hwas, rfl⟩ := List.mem_map.mp hheld
    have hold := h.fits old hin was hwas
    split
    · rename_i hid
      refine ⟨hold.since, hold.recorded, hold.coming, ?_, hold.begun, hold.present, hold.own⟩
      intro hstopped hawaits
      show s.reasons.has was.task = true
      rw [hid]
      exact hheard hstopped old hin was hwas hid hawaits
    · exact ⟨hold.since, hold.recorded, hold.coming, hold.heard, hold.begun, hold.present, hold.own⟩

theorem kept_stopAsked (h : Kept s) {intent : StopIntent} {reason : String}
    (hrow : stopRow s.queue id intent = some queue) : Kept
      { s with
        queue
        stops := s.stops ++ [(id, ⟨reason, intent, s.asks⟩)]
        asks := s.asks + 1 } := by
  obtain ⟨hfewer, hunclaimed⟩ := stopRow_unclaimed hrow
  have hkept := kept_queue h hfewer
  refine ⟨?_, hkept.owed, ?_, h.started, h.again⟩
  · intro other hstopped
    by_cases hid : other = id
    · rw [hid]
      exact hunclaimed
    · refine hkept.quiet other (stopped_iff.mpr ((stopped_iff.mp hstopped).imp_right ?_))
      rintro ⟨stop, hstop⟩
      rcases List.mem_append.mp hstop with hstop | hstop
      · exact ⟨stop, hstop⟩
      · exact absurd (congrArg Prod.fst (List.mem_singleton.mp hstop)) hid
  · intro run hrun held hheld
    have hold := hkept.fits run hrun held hheld
    refine ⟨hold.since.trans (Nat.le_succ _), hold.recorded, ?_, hold.heard, hold.begun,
      hold.present, hold.own⟩
    intro stop hstop
    rcases List.mem_append.mp hstop with hstop | hstop
    · exact hold.coming stop hstop
    · cases List.mem_singleton.mp hstop
      exact hold.since

theorem get?_record {reasons : OrderedMap String RecordedStop} {id other : String}
    {stop found : RecordedStop} (h : (record reasons id stop).get? other = some found) :
    (other = id ∧ found = stop) ∨ reasons.get? other = some found := by
  have hset := OrderedMap.get?_of_keepLast h
  rw [OrderedMap.get?_set] at hset
  split at hset
  · rename_i hid
    exact .inl ⟨hid, (Option.some.inj hset).symm⟩
  · exact .inr hset

theorem kept_stopRecorded (h : Kept s) {i : Nat} {stop : RecordedStop}
    (hstop : s.stops[i]? = some (id, stop)) (hundisturbed : Undisturbed s (.stopRecorded i)) : Kept
      { s.mark id true with
        reasons := record s.reasons id stop
        stops := s.stops.eraseIdx i } := by
  have hmem := List.mem_of_getElem? hstop
  have hkeeps : ∀ run ∈ s.runs, ∀ held ∈ run.tasks, run.awaits held = true →
      held.task = id ∨ s.reasons.has held.task = true →
        (record s.reasons id stop).has held.task = true := by
    intro run hrun held hheld hawaits hhas
    simp only [Undisturbed, undisturbed, hstop, Option.all_some, List.all_eq_true,
      Bool.or_eq_true, Bool.not_eq_true', Bool.and_eq_false_iff] at hundisturbed
    have hset : (s.reasons.set id stop).has held.task = true := by
      rw [OrderedMap.has_iff]
      by_cases hid : held.task = id
      · exact ⟨stop, by rw [OrderedMap.get?_set, if_pos hid]⟩
      · obtain ⟨found, hfound⟩ := OrderedMap.has_iff.mp (hhas.resolve_left hid)
        exact ⟨found, by rw [OrderedMap.get?_set, if_neg hid, hfound]⟩
    refine (hundisturbed run hrun held hheld).resolve_left fun hnot => ?_
    rcases hnot with hnot | hnot
    · rw [hawaits] at hnot
      cases hnot
    · rw [hset] at hnot
      cases hnot
  have hrecorded : Kept { s with
      reasons := record s.reasons id stop
      stops := s.stops.eraseIdx i } := by
    refine ⟨?_, h.owed, ?_, h.started, h.again⟩
    · intro other hother
      refine h.quiet other (stopped_iff.mpr ?_)
      rcases stopped_iff.mp hother with hhas | ⟨found, hfound⟩
      · obtain ⟨found, hfound⟩ := OrderedMap.has_iff.mp hhas
        rcases get?_record hfound with ⟨rfl, rfl⟩ | hbefore
        · exact .inr ⟨_, hmem⟩
        · exact .inl (OrderedMap.has_iff.mpr ⟨found, hbefore⟩)
      · exact .inr ⟨found, List.mem_of_mem_eraseIdx hfound⟩
    · intro run hrun held hheld
      have hold := h.fits run hrun held hheld
      refine ⟨hold.since, ?_, ?_, ?_, hold.begun, hold.present, hold.own⟩
      · intro found hfound
        rcases get?_record hfound with ⟨hid, rfl⟩ | hbefore
        · exact hold.coming _ (hid ▸ hmem)
        · exact hold.recorded found hbefore
      · exact fun found hfound => hold.coming found (List.mem_of_mem_eraseIdx hfound)
      · exact fun hmarked hawaits =>
          hkeeps run hrun held hheld hawaits (.inr (hold.heard hmarked hawaits))
  refine kept_mark hrecorded id true ?_
  intro _ run hrun held hheld hid hawaits
  have hhas := hkeeps run hrun held hheld hawaits (.inl hid)
  rw [hid] at hhas
  exact hhas

end Kept

section Steps

variable {s : System} {r k : Nat} {run : Run} {held : Holding}

variable {queue : QueueStore}

theorem kept_claims (h : Kept s) (hrun : s.runs[r]? = some run) (hmode : run.mode = .leasing)
    (news : List Holding) (added : List WorkLease)
    (hleases : queue.leases = s.queue.leases ++ added)
    (hfresh : ∀ lease ∈ added, ∀ old ∈ s.queue.leases, old.id ≠ lease.id)
    (hclaims : ∀ id, taskClaimed queue id = true →
      taskClaimed s.queue id = true ∨ ∃ held ∈ news, held.task = id)
    (hfree : ∀ held ∈ news, s.stopped held.task = false)
    (hnews : ∀ held ∈ news, held.since = s.asks ∧ held.stopped = false ∧ held.phase = .leased)
    (hown : ∀ held ∈ news, ∀ id, held.lease = some id →
      ∃ lease ∈ added, lease.id = id ∧ lease.taskId = held.task)
    (honce : ∀ a ∈ added, ∀ b ∈ added, a.id = b.id → a = b) :
    Kept { s.setRun r { run with tasks := run.tasks ++ news } with queue } := by
  have hmem := List.mem_of_getElem? hrun
  have hkeeps : ∀ {other : Run} {own : Holding}, s.Fits other own →
      StoppedRuns.Fits s.asks s.reasons s.stops queue.leases other own := by
    intro other own hold
    refine ⟨hold.since, hold.recorded, hold.coming, hold.heard, hold.begun, ?_, ?_⟩
    · intro id hid
      obtain ⟨lease, hlease, hleaseId⟩ := hold.present id hid
      exact ⟨lease, hleases ▸ List.mem_append_left _ hlease, hleaseId⟩
    · intro id hid lease hlease hleaseId
      rw [hleases] at hlease
      rcases List.mem_append.mp hlease with hlease | hlease
      · exact hold.own id hid lease hlease hleaseId
      · obtain ⟨old, hin, holdId⟩ := hold.present id hid
        exact absurd (holdId.trans hleaseId.symm) (hfresh lease hlease old hin)
  refine ⟨?_, ?_, ?_, h.started, h.again⟩
  · intro id hstopped
    refine Bool.eq_false_iff.mpr fun hclaimed => ?_
    rcases hclaims id hclaimed with hbefore | ⟨own, hin, rfl⟩
    · exact Bool.eq_false_iff.mp (h.quiet id hstopped) hbefore
    · exact Bool.eq_false_iff.mp (hfree own hin) hstopped
  · intro id hclaimed
    have howes : ∀ own ∈ run.tasks ++ news,
        Run.owes { run with tasks := run.tasks ++ news } own = true := by
      intro own _
      simp only [Run.owes, hmode]
    rcases hclaims id hclaimed with hbefore | ⟨own, hin, rfl⟩
    · refine owed_set hrun ?_ (h.owed id hbefore)
      rintro own hin rfl _
      exact ⟨own, List.mem_append_left _ hin, rfl, howes own (List.mem_append_left _ hin)⟩
    · refine ⟨_, List.mem_set (List.getElem?_eq_some_iff.mp hrun).1 _, own, ?_, rfl, ?_⟩
      · exact List.mem_append_right _ hin
      · exact howes own (List.mem_append_right _ hin)
  · intro other hother own hin
    rcases List.mem_or_eq_of_mem_set hother with hother | rfl
    · exact hkeeps (h.fits other hother own hin)
    · rcases List.mem_append.mp hin with hin | hin
      · have hold := hkeeps (h.fits run hmem own hin)
        exact ⟨hold.since, hold.recorded, hold.coming, hold.heard, hold.begun, hold.present, hold.own⟩
      · obtain ⟨hsince, hmarked, hphase⟩ := hnews own hin
        have hnone := fun hstopped => Bool.eq_false_iff.mp (hfree own hin) (stopped_iff.mpr hstopped)
        refine ⟨hsince.le, ?_, ?_, ?_, fun _ => hphase, ?_, ?_⟩
        · intro stop hstop
          exact (hnone (.inl (OrderedMap.has_iff.mpr ⟨stop, hstop⟩))).elim
        · intro stop hstop
          exact (hnone (.inr ⟨stop, hstop⟩)).elim
        · intro hstopped
          rw [hmarked] at hstopped
          cases hstopped
        · intro id hid
          obtain ⟨lease, hlease, hleaseId, _⟩ := hown own hin id hid
          exact ⟨lease, hleases ▸ List.mem_append_right _ hlease, hleaseId⟩
        · intro id hid lease hlease hleaseId
          obtain ⟨mine, hmine, hmineId, htask⟩ := hown own hin id hid
          change lease ∈ queue.leases at hlease
          rw [hleases] at hlease
          rcases List.mem_append.mp hlease with hlease | hlease
          · exact absurd (hleaseId.trans hmineId.symm) (hfresh mine hmine lease hlease)
          · rw [honce lease hlease mine hmine (hleaseId.trans hmineId.symm)]
            exact htask

theorem kept_leasedNext (h : Kept s) (hrun : s.runs[r]? = some run) (hmode : run.mode = .leasing)
    {now : Int} {lease : WorkLease} (hfresh : ∀ old ∈ s.queue.leases, old.id ≠ lease.id)
    (hnext : s.queue.leaseNextTask now lease = some queue)
    (hfree : lease ∈ queue.leases → s.stopped lease.taskId = false) :
    Kept (if lease ∈ queue.leases then
      { s.setRun r { run with tasks := run.tasks ++
          [{ task := lease.taskId, lease := some lease.id, since := s.asks }] } with queue }
      else { s with queue }) := by
  have hexpired := fewer_expireWorkLeases s.queue now
  have hbase := kept_queue h hexpired
  obtain ⟨_, f, hf, hmap⟩ := hexpired
  have hnew : ∀ old ∈ (s.queue.expireWorkLeases now).leases, old.id ≠ lease.id := by
    intro old hold
    rw [hmap] at hold
    obtain ⟨was, hwas, rfl⟩ := List.mem_map.mp hold
    rw [(hf was).id]
    exact hfresh was hwas
  rcases QueueStore.leaseNextTask_cases hnext with rfl | ⟨_, _, _, _, htasks, hleases⟩
  · rw [if_neg fun hin => hnew lease hin rfl]
    exact hbase
  · have hin : lease ∈ queue.leases := by
      rw [hleases]
      exact List.mem_append_right _ (List.mem_singleton_self lease)
    rw [if_pos hin]
    refine kept_claims hbase hrun hmode _ [lease] hleases ?_ ?_ ?_ ?_ ?_ ?_
    · intro added hadded
      rw [List.mem_singleton.mp hadded]
      exact hnew
    · intro id hclaimed
      by_cases hid : id = lease.taskId
      · exact .inr ⟨_, List.mem_singleton_self _, hid.symm⟩
      · refine .inl ?_
        rw [taskClaimed, QueueStore.changes, htasks, Function.update_of_ne hid] at hclaimed
        exact hclaimed
    · intro held hheld
      rw [List.mem_singleton.mp hheld]
      exact hfree hin
    · intro held hheld
      rw [List.mem_singleton.mp hheld]
      exact ⟨rfl, rfl, rfl⟩
    · intro held hheld id hid
      rw [List.mem_singleton.mp hheld] at hid ⊢
      exact ⟨lease, List.mem_singleton_self lease, Option.some.inj hid, rfl⟩
    · intro a ha b hb _
      rw [List.mem_singleton.mp ha, List.mem_singleton.mp hb]

theorem kept_claimedAll (h : Kept s) (hrun : s.runs[r]? = some {}) {ids : List String}
    (hfree : ∀ id ∈ ids, s.stopped id = false) :
    Kept { s.setRun r
      { tasks := ids.map fun id => { task := id, lease := none, since := s.asks } } with
        queue := s.queue.claimSubmittedTasks ids } := by
  refine kept_claims h hrun rfl _ [] (List.append_nil _).symm ?_ ?_ ?_ ?_ ?_ ?_
  · intro lease hlease
    cases hlease
  · intro id hclaimed
    cases htask : s.queue.tasks id with
    | none => simp [taskClaimed, QueueStore.changes, QueueStore.claimSubmittedTasks, htask] at hclaimed
    | some task =>
      by_cases hin : id ∈ ids
      · exact .inr ⟨_, List.mem_map_of_mem hin, rfl⟩
      · refine .inl ?_
        simpa [taskClaimed, QueueStore.changes, QueueStore.claimSubmittedTasks, htask, hin]
          using hclaimed
  · intro held hheld
    obtain ⟨id, hid, rfl⟩ := List.mem_map.mp hheld
    exact hfree id hid
  · intro held hheld
    obtain ⟨id, _, rfl⟩ := List.mem_map.mp hheld
    exact ⟨rfl, rfl, rfl⟩
  · intro held hheld id hid
    obtain ⟨_, _, rfl⟩ := List.mem_map.mp hheld
    cases hid
  · intro lease hlease
    cases hlease

theorem kept_report (h : Kept s) (hholding : s.holding r k = some (run, held))
    (hmode : run.mode ≠ .leasing) {stop : RecordedStop}
    (hstop : s.reasons.get? held.task = some stop) : Kept (s.report r k run held stop) := by
  obtain ⟨hrun, hheld⟩ := holding_eq_some hholding
  have hhas := stopped_iff.mpr (.inl (OrderedMap.has_iff.mpr ⟨stop, hstop⟩))
  have hsince := (h.fits run (List.mem_of_getElem? hrun) held
    (List.mem_of_getElem? hheld)).recorded stop hstop
  simp only [System.report]
  rw [if_neg (Nat.not_lt.mpr hsince)]
  refine kept_setHolding h _ hholding rfl ?_ ?_
  · intro hold
    refine Fits.phase hold _ ?_ hmode
    intro hawaits
    simp [Run.awaits] at hawaits
  · intro _ hclaimed
    rw [h.quiet _ hhas] at hclaimed
    cases hclaimed

theorem kept_phase (h : Kept s) (hholding : s.holding r k = some (run, held))
    (hmode : run.mode = .running) {phase : Phase} (hover : phase.over = false)
    (hawaits : run.awaits { held with phase } = true → run.awaits held = true) :
    Kept (s.setHolding r k run { held with phase }) := by
  refine kept_setHolding h _ hholding rfl ?_ ?_
  · intro hold
    refine Fits.phase hold _ hawaits ?_
    rw [hmode]
    exact Mode.noConfusion
  · intro _ _
    simp only [Run.owes, hmode, hover, Bool.not_false]

/-- Unless it is given up, a task that goes its way is owed its ending, and awaits a start
only if it did. -/
theorem walk_kept {way : Walk} {was phase : Phase} (hwas : held.phase = was)
    (h : walk way was = some phase) (hway : way ≠ .dependencyCancelled) :
    phase.over = false ∧
      (run.awaits { held with phase } = true → run.awaits held = true) := by
  simp only [walk] at h
  split at h <;> cases h
  · exact ⟨rfl, by simp [Run.awaits, hwas]⟩
  · exact ⟨rfl, by simp [Run.awaits]⟩
  · exact ⟨rfl, by simp [Run.awaits, hwas]⟩
  · exact ⟨rfl, by simp [Run.awaits]⟩
  · exact absurd rfl hway

theorem kept_mode (h : Kept s) (hrun : s.runs[r]? = some run) (mode : Mode)
    (hmode : mode ≠ .leasing)
    (hawaits : ∀ held, Run.awaits { run with mode } held = true → run.awaits held = true)
    (howes : ∀ held ∈ run.tasks, s.Fits run held → run.owes held = true →
      Run.owes { run with mode } held = true) : Kept (s.setRun r { run with mode }) := by
  have hmem := List.mem_of_getElem? hrun
  refine kept_setRun h _ hrun ?_ ?_
  · intro own hown
    exact Fits.phase (h.fits run hmem own hown) own.phase (hawaits own) hmode
  · intro own hown hholds _
    exact ⟨own, hown, rfl, howes own hown (h.fits run hmem own hown) hholds⟩

theorem kept_settled (h : Kept s) (hholding : s.holding r k = some (run, held))
    (hmode : run.mode ≠ .leasing) (hfewer : Fewer s.queue queue)
    (hunclaimed : taskClaimed queue held.task = false) :
    Kept { s.setHolding r k run { held with phase := .settled } with queue } := by
  refine kept_setHolding (kept_queue h hfewer) _ hholding rfl ?_ ?_
  · intro hold
    refine Fits.phase hold _ ?_ hmode
    intro hawaits
    simp [Run.awaits] at hawaits
  · intro _ hclaimed
    change taskClaimed queue held.task = true at hclaimed
    rw [hunclaimed] at hclaimed
    cases hclaimed

theorem kept_handedBack (h : Kept s) (hholding : s.holding r k = some (run, held))
    (hfewer : Fewer s.queue queue) (hunclaimed : taskClaimed queue held.task = false) :
    Kept { s.setRun r { run with tasks := run.tasks.eraseIdx k } with queue } := by
  obtain ⟨hrun, hheld⟩ := holding_eq_some hholding
  obtain ⟨hlt, hget⟩ := List.getElem?_eq_some_iff.mp hheld
  have hqueue := kept_queue h hfewer
  refine kept_setRun hqueue _ hrun ?_ ?_
  · intro own hown
    have hold := hqueue.fits run (List.mem_of_getElem? hrun) own (List.mem_of_mem_eraseIdx hown)
    exact ⟨hold.since, hold.recorded, hold.coming, hold.heard, hold.begun, hold.present, hold.own⟩
  · intro own hown hholds hclaimed
    obtain ⟨i, hi, rfl⟩ := List.getElem_of_mem hown
    by_cases hik : i = k
    · cases hik
      rw [hget] at hclaimed
      rw [hunclaimed] at hclaimed
      cases hclaimed
    · exact ⟨_, List.mem_eraseIdx_iff_getElem.mpr ⟨i, hi, hik, rfl⟩, rfl, hholds⟩

end Steps

theorem kept_step (s : System) (event : Event) (s' : System) (h : Kept s)
    (hundisturbed : Undisturbed s event) (hs : step s event = some s') : Kept s' := by
  cases event with
  | submitTask id planOnly openTurns =>
    obtain ⟨_, hs⟩ := Option.ite_none_right_eq_some.mp hs
    cases hs
    exact kept_queue h (fewer_submitTask s.queue id planOnly openTurns)
  | stopAsked id intent reason =>
    obtain rfl := Option.some.inj hs
    split
    · rename_i queue hrow
      exact kept_stopAsked h hrow
    · exact h
  | stopRecorded i =>
    obtain ⟨⟨id, stop⟩, hstop, rfl⟩ := Option.map_eq_some_iff.mp hs
    exact kept_stopRecorded h hstop hundisturbed
  | resumed id =>
    obtain rfl := Option.some.inj hs
    split
    · rename_i queue hresumed
      obtain ⟨_, hresumed⟩ := Option.ite_none_right_eq_some.mp hresumed
      cases hresumed
      exact kept_queue (kept_mark h id false Bool.noConfusion)
        (fewer_update s.queue id [.paused] (by decide))
    · exact h
  | retried id =>
    obtain rfl := Option.some.inj hs
    split
    · rename_i queue hretried
      obtain ⟨_, rfl⟩ := QueueStore.retrySubmittedTask_some hretried
      exact kept_queue (kept_mark h id false Bool.noConfusion)
        (fewer_update s.queue id [.claimed, .failed] (by decide))
    · exact h
  | finishWorkLease id status now =>
    obtain ⟨_, hs⟩ := Option.ite_none_left_eq_some.mp hs
    cases hs
    exact kept_queue h (fewer_finishWorkLease s.queue id status now)
  | heartbeatWorkLease id heartbeatAt expiresAt =>
    cases hs
    exact kept_queue h (fewer_heartbeatWorkLease s.queue id heartbeatAt expiresAt)
  | expireWorkLeases now =>
    cases hs
    exact kept_queue h (fewer_expireWorkLeases s.queue now)
  | runStarted =>
    cases hs
    refine ⟨h.quiet, ?_, ?_, h.started, h.again⟩
    · intro id hclaimed
      obtain ⟨run, hrun, hrest⟩ := h.owed id hclaimed
      exact ⟨run, List.mem_append_left _ hrun, hrest⟩
    · intro run hrun held hheld
      rcases List.mem_append.mp hrun with hrun | hrun
      · exact h.fits run hrun held hheld
      · cases List.mem_singleton.mp hrun
        cases hheld
  | leasedNext r now lease =>
    simp only [step] at hs
    split at hs
    · rename_i run hrun
      obtain ⟨⟨hmode, _, hfresh⟩, hs⟩ := Option.ite_none_right_eq_some.mp hs
      obtain rfl := Option.some.inj hs
      simp only [Undisturbed, undisturbed] at hundisturbed
      split
      · rename_i queue hnext
        rw [hnext] at hundisturbed
        refine kept_leasedNext h hrun hmode (by simpa using hfresh) hnext ?_
        intro hin
        simpa [hin] using hundisturbed
      · rename_i hnext
        rw [hnext, hrun] at hundisturbed
        have hnone : run.tasks = [] := by simpa using hundisturbed
        refine kept_mode h hrun .ended Mode.noConfusion ?_ ?_
        · intro held hawaits
          simp [Run.awaits] at hawaits
        · intro held hheld
          rw [hnone] at hheld
          cases hheld
    · cases hs
  | claimedAll r ids =>
    simp only [step] at hs
    split at hs
    · rename_i run hrun
      obtain ⟨rfl, hs⟩ := Option.ite_none_right_eq_some.mp hs
      cases hs
      refine kept_claimedAll h hrun ?_
      intro id hid
      obtain ⟨hid, hqueued⟩ := List.mem_filter.mp hid
      have hfree := List.all_eq_true.mp hundisturbed id hid
      simpa [hqueued] using hfree
    · cases hs
  | handedBack r k =>
    simp only [step] at hs
    split at hs
    · rename_i run held hholding
      obtain ⟨_, hs⟩ := Option.ite_none_right_eq_some.mp hs
      cases hs
      obtain ⟨hfewer, hunclaimed⟩ := retried_unclaimed s.queue held.task
      exact kept_handedBack h hholding hfewer hunclaimed
    · cases hs
  | runBegan r =>
    simp only [step] at hs
    split at hs
    · rename_i run hrun
      obtain ⟨hmode, hs⟩ := Option.ite_none_right_eq_some.mp hs
      cases hs
      refine kept_mode h hrun .running Mode.noConfusion ?_ ?_
      · intro held hawaits
        simpa [Run.awaits, hmode] using hawaits
      · intro held _ hold _
        simp only [Run.owes, hold.begun hmode]
        rfl
    · cases hs
  | walked r k way =>
    simp only [step] at hs
    split at hs
    · rename_i run held hholding
      obtain ⟨hmode, hs⟩ := Option.ite_none_right_eq_some.mp hs
      obtain ⟨phase, hwalk, rfl⟩ := Option.map_eq_some_iff.mp hs
      obtain ⟨hover, hawaits⟩ := walk_kept rfl hwalk (of_decide_eq_true hundisturbed)
      exact kept_phase h hholding hmode hover hawaits
    · cases hs
  | checkpoint r k =>
    simp only [step] at hs
    split at hs
    · rename_i run held hholding
      obtain ⟨⟨hmode, hphase⟩, hs⟩ := Option.ite_none_right_eq_some.mp hs
      obtain rfl := Option.some.inj hs
      split
      · rename_i stop hstop
        exact kept_report h hholding (by rw [hmode]; exact Mode.noConfusion) hstop
      · exact kept_phase h hholding hmode rfl (by simp [Run.awaits, hphase])
    · cases hs
  | started r k =>
    simp only [step] at hs
    split at hs
    · rename_i run held hholding
      obtain ⟨⟨hmode, hphase⟩, hs⟩ := Option.ite_none_right_eq_some.mp hs
      obtain rfl := Option.some.inj hs
      obtain ⟨hrun, hheld⟩ := holding_eq_some hholding
      simp only [Undisturbed, undisturbed, hholding, Option.all_some, Bool.not_eq_true']
        at hundisturbed
      have hfree : held.stopped = false := by
        refine Bool.eq_false_iff.mpr fun hstopped => ?_
        have hhas := (h.fits run (List.mem_of_getElem? hrun) held
          (List.mem_of_getElem? hheld)).heard hstopped (by simp [Run.awaits, hmode, hphase])
        rw [hundisturbed] at hhas
        cases hhas
      rw [if_neg (by rw [hfree]; exact Bool.noConfusion)]
      exact kept_phase h hholding hmode rfl (by simp [Run.awaits])
    · cases hs
  | threwInside r k =>
    simp only [step] at hs
    split at hs
    · rename_i run held hholding
      obtain ⟨⟨hmode, _⟩, hs⟩ := Option.ite_none_right_eq_some.mp hs
      obtain rfl := Option.some.inj hs
      split
      · rename_i stop hstop
        exact kept_report h hholding (by rw [hmode]; exact Mode.noConfusion) hstop
      · exact kept_phase h hholding hmode rfl (by simp [Run.awaits])
    · cases hs
  | settled r k now turn =>
    simp only [step] at hs
    split at hs
    · rename_i run held hholding
      split at hs
      · rename_i outcome hphase
        obtain ⟨⟨hmode, _⟩, hs⟩ := Option.ite_none_right_eq_some.mp hs
        obtain rfl := Option.some.inj hs
        obtain ⟨hrun, hheld⟩ := holding_eq_some hholding
        split
        · rename_i queue hsettle
          have hown := (h.fits run (List.mem_of_getElem? hrun) held (List.mem_of_getElem? hheld)).own
          obtain ⟨hfewer, hunclaimed⟩ := settle_unclaimed hown hsettle
          exact kept_settled h hholding (by rw [hmode]; exact Mode.noConfusion) hfewer hunclaimed
        · refine kept_mode h hrun .catching Mode.noConfusion ?_ fun _ _ _ _ => rfl
          intro held hawaits
          simp [Run.awaits] at hawaits
      · cases hs
    · cases hs
  | threw r =>
    simp only [step] at hs
    split at hs
    · rename_i run hrun
      obtain ⟨_, hs⟩ := Option.ite_none_right_eq_some.mp hs
      cases hs
      refine kept_mode h hrun .catching Mode.noConfusion ?_ fun _ _ _ _ => rfl
      intro held hawaits
      simp [Run.awaits] at hawaits
    · cases hs
  | caught r =>
    simp only [step] at hs
    split at hs
    · rename_i run hrun
      obtain ⟨_, hs⟩ := Option.ite_none_right_eq_some.mp hs
      cases hs
      refine kept_setRun h _ hrun ?_ ?_
      · intro own hown
        obtain ⟨held, hheld, rfl⟩ := List.mem_map.mp hown
        refine Fits.phase (h.fits run (List.mem_of_getElem? hrun) held hheld) _ ?_ Mode.noConfusion
        intro hawaits
        simp [Run.awaits] at hawaits
      · intro held hheld _ hclaimed
        refine ⟨_, List.mem_map_of_mem hheld, rfl, ?_⟩
        simp only [Run.owes, hclaimed, if_true, decide_true]
    · cases hs
  | failedOne r k =>
    simp only [step] at hs
    split at hs
    · rename_i run held hholding
      obtain ⟨⟨hmode, _⟩, hs⟩ := Option.ite_none_right_eq_some.mp hs
      cases hs
      obtain ⟨hfewer, hunclaimed⟩ := failed_unclaimed s.queue held.task
      exact kept_settled h hholding (by rw [hmode]; exact Mode.noConfusion) hfewer hunclaimed
    · cases hs
  | ended r =>
    simp only [step] at hs
    split at hs
    · rename_i run hrun
      obtain ⟨⟨hmode, hover⟩, hs⟩ := Option.ite_none_right_eq_some.mp hs
      cases hs
      refine kept_mode h hrun .ended Mode.noConfusion ?_ ?_
      · intro held hawaits
        simp [Run.awaits] at hawaits
      · intro held hheld _ howes
        have hdone := List.all_eq_true.mp hover held hheld
        rcases hmode with hmode | hmode
        · simp only [Run.owes, hmode, hdone, Bool.not_true] at howes
          cases howes
        · simp only [Run.owes, hmode, decide_eq_true_eq] at howes
          rw [howes] at hdone
          cases hdone
    · cases hs

theorem Kept.obeyed {s : System} (h : Kept s) : Obeyed s where
  obeyed := h.started
  undone := h.again
  none_left _ _ _ held _ hclaimed := h.owed held.task hclaimed

def leaseFor (id taskId : String) : WorkLease where
  id := id
  taskId := taskId
  repositoryId := "r"
  status := .active
  baseRevision := "b"
  expiresAt := 100

/-- Of the two tasks of a run one is paused before its wave, and the other is integrated;
then the first is resumed. -/
def pausedInTime : List Event :=
  [.submitTask "t" false [], .submitTask "u" false [], .runStarted,
    .leasedNext 0 0 (leaseFor "L1" "t"), .leasedNext 0 0 (leaseFor "L2" "u"), .runBegan 0,
    .walked 0 0 .planned, .walked 0 1 .planned, .stopAsked "t" .pause "wait", .stopRecorded 0,
    .finishWorkLease "L1" .released 1, .checkpoint 0 0, .checkpoint 0 1, .started 0 1,
    .walked 0 1 (.executed .integrated), .settled 0 1 2 false, .ended 0, .resumed "t"]

/-- A queued task is paused and resumed, and a run takes it. -/
def pausedAndResumed : List Event :=
  [.submitTask "t" false [], .stopAsked "t" .pause "wait", .stopRecorded 0, .resumed "t",
    .runStarted, .leasedNext 0 0 (leaseFor "L1" "t"), .runBegan 0, .walked 0 0 .planned,
    .checkpoint 0 0, .ended 0]

/-- The task, which runs have ended, and what has been stopped by a stop from before. -/
def afterResume (s : System) : Option SubmittedTask × List Mode × List String :=
  (s.queue.tasks "t", s.runs.map Run.mode, s.stoppedAgain)

end AgenticGit.Cli.StoppedRuns
