import AgenticGit.Lib.Runs
import AgenticGit.Persistence.TaskQueue

/- The calls of `acceptWorkResult` (`worker-operations.ts`), with
   `requeueForCanonicalChange`, `rejectWorkerResult` and `failClaimedTask`, as they
   act on the queue: every stretch between two awaits that reads or writes a task or a
   lease is a step of its own, and any number of calls run against the store's other
   methods.

   Correspondence (TypeScript ↔ Lean):
     where a call stands                        ↔ `Phase`
     what it does next: what the worker reported, what the repository, the review and
       the integration answer, and which call throws ↔ `Move`
     `integrations.integrate`                   ↔ `Move.integrate`, with its status;
       `advanced` records the leases whose result moved canonical
     `requeueForContextHandoff`, `requeueForDeferredScope` ↔ `Move.release`, or
       `Move.reportFailure` when the handoffs are used up
     `expireWorkLeases` inside a call           ↔ the event of that name, which can
       come at any time
   A call that answers from what its first read finds is no event. `settled` and
   `returned` say of a call whether its own `finishWorkLease` ended the lease as
   completed or failed and whether it put the task back; they are for the statements.

   What is proved:
     1. `advance_cases` — one stretch of a call writes nothing, settles or releases its
        lease, writes the task's ending, or puts the task back.
     2. `step_cases`, `tied_run` — what a call is about stays in the table, and one call at most
        settles a lease (`Tied.settled_once`). -/
namespace AgenticGit.Cli.ResultCalls
open AgenticGit.Runs AgenticGit.Persistence

/-! ## Calls -/

inductive IntegrationStatus where
  | integrated | conflict | validationFailed | policyFailed | stale | empty
  deriving DecidableEq, Repr

/-- Where a call stands; `running` on are inside the `try`. -/
inductive Phase where
  /-- The lease was active; about to read the task. -/
  | readingTask
  /-- The task was not claimed; about to fail the lease. -/
  | rejecting
  | deciding
  | running
  /-- The lease is completed; about to integrate. -/
  | integrating
  | integrated (status : IntegrationStatus)
  /-- The task has its ending. -/
  | recorded
  /-- In `requeueForCanonicalChange`: about to read the lease, to release it, to read
  the task, to retry it. -/
  | requeueing | releasing | readingClaim | retrying | requeued
  /-- In the `catch`: about to read the lease, to fail it. -/
  | catching | catchFinishing
  /-- In `failClaimedTask`, about to read the task. -/
  | failing
  | completing (status : QueueStore.Completion)
  | done
  deriving DecidableEq, Repr

structure Call where
  lease : String
  task : String
  phase : Phase := .readingTask
  settled : Bool := false
  returned : Bool := false
  deriving DecidableEq, Repr

inductive Move where
  /-- The read its phase is about. -/
  | read
  /-- The call it is about throws. -/
  | throws
  /-- An unusable result, an answered question, a reported failure, work given back. -/
  | reject | answer | reportFailure | release
  /-- Into the `try`. -/
  | run
  /-- `finishWorkLease(.., "completed")`, or `"failed"` in the `catch`. -/
  | settle
  | integrate (status : IntegrationStatus)
  /-- Canonical moves, and a read after it throws. -/
  | throwsPromoted
  /-- A stale result is graded again and integrated again. -/
  | again
  | requeue
  /-- The task's ending is written. -/
  | record
  | finish
  deriving DecidableEq, Repr

/-- What a call has done to the store, and where it stands. -/
structure Advance where
  queue : QueueStore
  call : Call
  /-- Whether canonical moved. -/
  advanced : Bool := false

def taskClaimed (queue : QueueStore) (id : String) : Bool := queue.changes id [.claimed]

/-- `finishWorkLease` for a call that settles its lease. -/
def settleLease (queue : QueueStore) (call : Call) (status : WorkLeaseStatus) (now : Int)
    (won lost : Phase) : Advance :=
  match queue.finishWorkLease call.lease status now with
  | (ended, true) => { queue := ended, call := { call with phase := won, settled := true } }
  | (_, false) => { queue, call := { call with phase := lost } }

/-- `finishWorkLease(.., "released")`; either answer goes on. -/
def releaseLease (queue : QueueStore) (call : Call) (now : Int) (phase : Phase) : Advance :=
  { queue := (queue.finishWorkLease call.lease .released now).1, call := { call with phase } }

/-- `completeSubmittedTask`, which throws when the task is not claimed. -/
def completeTask (queue : QueueStore) (call : Call) (status : QueueStore.Completion)
    (phase thrown : Phase) : Advance :=
  match queue.completeSubmittedTask call.task status with
  | some ended => { queue := ended, call := { call with phase } }
  | none => { queue, call := { call with phase := thrown } }

/-- `retrySubmittedTask`, in `requeueForCanonicalChange`. -/
def retryTask (queue : QueueStore) (call : Call) : Advance :=
  match queue.retrySubmittedTask call.task with
  | some retried =>
    { queue := retried, call := { call with phase := .requeued, returned := true } }
  | none => { queue, call := { call with phase := .catching } }

def ending : IntegrationStatus → QueueStore.Completion
  | .integrated => .integrated
  | .empty => .integrated
  | _ => .failed

/-- Whether the result is graded again, or given back to be planned again. -/
def replans : IntegrationStatus → Bool
  | .stale => true
  | .conflict => true
  | .validationFailed => true
  | _ => false

/-- Whether a throw is caught by the `catch` block. -/
def Phase.inTry : Phase → Bool
  | .running => true
  | .integrating => true
  | .integrated _ => true
  | .recorded => true
  | .requeueing => true
  | .releasing => true
  | .readingClaim => true
  | .retrying => true
  | .requeued => true
  | _ => false

def goTo (queue : QueueStore) (call : Call) (phase : Phase) : Advance :=
  { queue, call := { call with phase } }

def look (queue : QueueStore) (call : Call) : Option Phase :=
  match call.phase with
  | .readingTask => some (if taskClaimed queue call.task then .deciding else .rejecting)
  | .requeueing =>
    (queue.lease? call.lease).map fun lease =>
      if lease.status = .active then .releasing else .readingClaim
  | .readingClaim => some (if taskClaimed queue call.task then .retrying else .requeued)
  | .catching =>
    (queue.lease? call.lease).map fun lease =>
      if lease.status = .completed then .failing
      else if lease.status = .active then .catchFinishing
      else .done
  | .failing => some (if taskClaimed queue call.task then .completing .failed else .done)
  | _ => none

def advance (queue : QueueStore) (call : Call) (now : Int) : Move → Option Advance
  | .read => (look queue call).map (goTo queue call)
  | .throws =>
    if call.phase = .done then none
    else some (goTo queue call (if call.phase.inTry then .catching else .done))
  | .reject =>
    if call.phase = .rejecting ∨ call.phase = .deciding then
      some (settleLease queue call .failed now .failing .done)
    else none
  | .answer =>
    if call.phase = .deciding then
      some (settleLease queue call .completed now (.completing .integrated) .done)
    else none
  | .reportFailure =>
    if call.phase = .deciding then
      some (settleLease queue call .failed now (.completing .failed) .done)
    else none
  | .release =>
    match call.phase with
    | .deciding => some (releaseLease queue call now .done)
    | .releasing => some (releaseLease queue call now .requeued)
    | _ => none
  | .run => if call.phase = .deciding then some (goTo queue call .running) else none
  | .settle =>
    match call.phase with
    | .running => some (settleLease queue call .completed now .integrating .catching)
    | .catchFinishing => some (settleLease queue call .failed now .failing .done)
    | _ => none
  | .integrate status =>
    if call.phase = .integrating then
      some { goTo queue call (.integrated status) with advanced := status = .integrated }
    else none
  | .throwsPromoted =>
    if call.phase = .integrating then some { goTo queue call .catching with advanced := true }
    else none
  | .again =>
    if call.phase = .integrated .stale then some (goTo queue call .integrating) else none
  | .requeue =>
    match call.phase with
    | .running => some (goTo queue call .requeueing)
    | .integrated status => if replans status then some (goTo queue call .requeueing) else none
    | .retrying => some (retryTask queue call)
    | _ => none
  | .record =>
    match call.phase with
    | .integrated status =>
      if status = .stale then none
      else some (completeTask queue call (ending status) .recorded .catching)
    | .completing status => some (completeTask queue call status .done .done)
    | _ => none
  | .finish =>
    if call.phase = .recorded ∨ call.phase = .requeued then some (goTo queue call .done) else none

/-! ## What a stretch does -/

/-- Whether the call is about to write the task's ending, or to put it back. -/
def Phase.owes : Phase → Bool
  | .integrating => true
  | .integrated _ => true
  | .retrying => true
  | .completing _ => true
  | _ => false

/-- Whether the call is about to look whether its task is still claimed, having found
its lease ended. -/
def Phase.asksClaim : Phase → Bool
  | .readingClaim => true
  | .failing => true
  | _ => false

/-- Whether the call is inside the integration of its result. -/
def Phase.integrates : Phase → Bool
  | .integrating => true
  | .integrated _ => true
  | _ => false

def Phase.ending : Phase → Option QueueStore.Completion
  | .integrated status => some (ResultCalls.ending status)
  | .completing status => some status
  | _ => none

inductive Stretch (queue : QueueStore) (call : Call) (now : Int) (move : Move) : Advance → Prop
  | walks (phase : Phase) (advanced : Bool)
      (howes : phase.owes = true → call.phase.owes = true ∨
        (move = .read ∧ call.phase.asksClaim = true ∧ taskClaimed queue call.task = true))
      (hintegrates : phase.integrates = true → call.phase.integrates = true)
      (hadvanced : phase = .integrated .integrated → advanced = true)
      (hpromoted : advanced = true → call.phase = .integrating ∧
        (phase = .integrated .integrated ∨ (phase = .catching ∧ move = .throwsPromoted))) :
      Stretch queue call now move ⟨queue, { call with phase }, advanced⟩
  | settles (status : WorkLeaseStatus) (phase : Phase) (ended : QueueStore)
      (hstatus : status = .completed ∨ status = .failed)
      (hintegrates : phase.integrates = true → phase = .integrating ∧ status = .completed)
      (hended : queue.finishWorkLease call.lease status now = (ended, true)) :
      Stretch queue call now move ⟨ended, { call with phase, settled := true }, false⟩
  | releases (phase : Phase) (howes : phase.owes = false) :
      Stretch queue call now move
        ⟨(queue.finishWorkLease call.lease .released now).1, { call with phase }, false⟩
  | records (status : QueueStore.Completion) (phase : Phase) (ended : QueueStore)
      (hending : call.phase.ending = some status) (hphase : phase.owes = false)
      (hended : queue.completeSubmittedTask call.task status = some ended) :
      Stretch queue call now move ⟨ended, { call with phase }, false⟩
  | returns (retried : QueueStore) (hphase : call.phase = .retrying)
      (hretried : queue.retrySubmittedTask call.task = some retried) :
      Stretch queue call now move
        ⟨retried, { call with phase := .requeued, returned := true }, false⟩

section Stretches

variable {queue : QueueStore} {call : Call} {now : Int} {move : Move}

variable {phase : Phase} {status : QueueStore.Completion}

theorem owes_of_integrates (h : phase.integrates = true) : phase.owes = true := by
  cases phase <;> first | rfl | cases h

theorem owes_of_ending (h : phase.ending = some status) : phase.owes = true := by
  cases phase <;> first | rfl | cases h

theorem stretch_goTo (h : phase.owes = false) :
    Stretch queue call now move (goTo queue call phase) := by
  refine .walks phase false ?_ ?_ ?_ Bool.noConfusion
  · intro howes
    rw [h] at howes
    cases howes
  · intro hintegrates
    rw [owes_of_integrates hintegrates] at h
    cases h
  · rintro rfl
    cases h

theorem stretch_settleLease {status : WorkLeaseStatus} {won lost : Phase}
    (hstatus : status = .completed ∨ status = .failed)
    (hwon : won.integrates = true → won = .integrating ∧ status = .completed) (hlost : lost.owes = false) :
    Stretch queue call now move (settleLease queue call status now won lost) := by
  simp only [settleLease]
  split
  · rename_i ended hended
    exact .settles status won ended hstatus hwon hended
  · exact stretch_goTo hlost

theorem stretch_completeTask {phase thrown : Phase} (hending : call.phase.ending = some status)
    (hphase : phase.owes = false) (hthrown : thrown.owes = false) :
    Stretch queue call now move (completeTask queue call status phase thrown) := by
  simp only [completeTask]
  split
  · rename_i ended hended
    exact .records status phase ended hending hphase hended
  · exact stretch_goTo hthrown

theorem stretch_retryTask (hphase : call.phase = .retrying) :
    Stretch queue call now move (retryTask queue call) := by
  simp only [retryTask]
  split
  · rename_i retried hretried
    exact .returns retried hphase hretried
  · exact stretch_goTo rfl

theorem look_integrates (h : look queue call = some phase) : phase.integrates = false := by
  simp only [look] at h
  split at h
  · cases h
    split <;> rfl
  · obtain ⟨lease, _, rfl⟩ := Option.map_eq_some_iff.mp h
    split <;> rfl
  · cases h
    split <;> rfl
  · obtain ⟨lease, _, rfl⟩ := Option.map_eq_some_iff.mp h
    split
    · rfl
    · split <;> rfl
  · cases h
    split <;> rfl
  · cases h

theorem stretch_read (h : look queue call = some phase) :
    Stretch queue call now .read (goTo queue call phase) := by
  have hout := look_integrates h
  refine .walks phase false (fun howes => .inr ⟨rfl, ?_⟩) ?_ ?_ Bool.noConfusion
  rotate_left
  · intro hintegrates
    rw [hout] at hintegrates
    cases hintegrates
  · rintro rfl
    cases hout
  simp only [look] at h
  split at h
  · cases h
    split at howes <;> cases howes
  · obtain ⟨lease, _, rfl⟩ := Option.map_eq_some_iff.mp h
    split at howes <;> cases howes
  · rename_i hphase
    cases h
    split at howes
    · exact ⟨by rw [hphase]; rfl, ‹_›⟩
    · cases howes
  · obtain ⟨lease, _, rfl⟩ := Option.map_eq_some_iff.mp h
    split at howes
    · cases howes
    · split at howes <;> cases howes
  · rename_i hphase
    cases h
    split at howes
    · exact ⟨by rw [hphase]; rfl, ‹_›⟩
    · cases howes
  · cases h

end Stretches

/-- **What one stretch of a call can do.** -/
theorem advance_cases {queue : QueueStore} {call : Call} {now : Int} {move : Move}
    {done : Advance} (h : advance queue call now move = some done) :
    call.phase ≠ .done ∧ Stretch queue call now move done := by
  cases move with
  | read =>
    obtain ⟨phase, hlook, rfl⟩ := Option.map_eq_some_iff.mp h
    refine ⟨?_, stretch_read hlook⟩
    intro hdone
    rw [look, hdone] at hlook
    cases hlook
  | throws =>
    obtain ⟨hphase, h⟩ := Option.ite_none_left_eq_some.mp h
    cases h
    refine ⟨hphase, stretch_goTo ?_⟩
    split <;> rfl
  | reject =>
    obtain ⟨hphase, h⟩ := Option.ite_none_right_eq_some.mp h
    cases h
    refine ⟨?_, stretch_settleLease (.inr rfl) (fun h => nomatch h) rfl⟩
    rcases hphase with hphase | hphase <;> rw [hphase] <;> exact Phase.noConfusion
  | answer =>
    obtain ⟨hphase, h⟩ := Option.ite_none_right_eq_some.mp h
    cases h
    refine ⟨by rw [hphase]; exact Phase.noConfusion, stretch_settleLease (.inl rfl) ?_ rfl⟩
    exact fun h => nomatch h
  | reportFailure =>
    obtain ⟨hphase, h⟩ := Option.ite_none_right_eq_some.mp h
    cases h
    exact ⟨by rw [hphase]; exact Phase.noConfusion, stretch_settleLease (.inr rfl) (fun h => nomatch h) rfl⟩
  | release =>
    simp only [advance] at h
    split at h
    · rename_i hphase
      cases h
      exact ⟨by rw [hphase]; exact Phase.noConfusion, .releases _ rfl⟩
    · rename_i hphase
      cases h
      exact ⟨by rw [hphase]; exact Phase.noConfusion, .releases _ rfl⟩
    · cases h
  | run =>
    obtain ⟨hphase, h⟩ := Option.ite_none_right_eq_some.mp h
    cases h
    exact ⟨by rw [hphase]; exact Phase.noConfusion, stretch_goTo rfl⟩
  | settle =>
    simp only [advance] at h
    split at h
    · rename_i hphase
      cases h
      refine ⟨by rw [hphase]; exact Phase.noConfusion, stretch_settleLease (.inl rfl) ?_ rfl⟩
      exact fun _ => ⟨rfl, rfl⟩
    · rename_i hphase
      cases h
      exact ⟨by rw [hphase]; exact Phase.noConfusion, stretch_settleLease (.inr rfl) (fun h => nomatch h) rfl⟩
    · cases h
  | integrate status =>
    obtain ⟨hphase, h⟩ := Option.ite_none_right_eq_some.mp h
    cases h
    refine ⟨by rw [hphase]; exact Phase.noConfusion, .walks _ _ ?_ ?_ ?_ ?_⟩
    · intro _
      exact .inl (by rw [hphase]; rfl)
    · intro _
      rw [hphase]
      rfl
    · intro hintegrated
      exact decide_eq_true (Phase.integrated.inj hintegrated)
    · intro hadvanced
      exact ⟨hphase, .inl (congrArg Phase.integrated (of_decide_eq_true hadvanced))⟩
  | throwsPromoted =>
    obtain ⟨hphase, h⟩ := Option.ite_none_right_eq_some.mp h
    cases h
    refine ⟨by rw [hphase]; exact Phase.noConfusion, .walks _ _ ?_ ?_ ?_ ?_⟩
    · intro howes
      cases howes
    · intro hintegrates
      cases hintegrates
    · intro _
      rfl
    · intro _
      exact ⟨hphase, .inr ⟨rfl, rfl⟩⟩
  | again =>
    obtain ⟨hphase, h⟩ := Option.ite_none_right_eq_some.mp h
    cases h
    refine ⟨by rw [hphase]; exact Phase.noConfusion, .walks _ _ ?_ ?_ ?_ Bool.noConfusion⟩
    · intro _
      exact .inl (by rw [hphase]; rfl)
    · intro _
      rw [hphase]
      rfl
    · intro hintegrated
      cases hintegrated
  | requeue =>
    simp only [advance] at h
    split at h
    · rename_i hphase
      cases h
      exact ⟨by rw [hphase]; exact Phase.noConfusion, stretch_goTo rfl⟩
    · rename_i status hphase
      obtain ⟨_, h⟩ := Option.ite_none_right_eq_some.mp h
      cases h
      exact ⟨by rw [hphase]; exact Phase.noConfusion, stretch_goTo rfl⟩
    · rename_i hphase
      cases h
      exact ⟨by rw [hphase]; exact Phase.noConfusion, stretch_retryTask hphase⟩
    · cases h
  | record =>
    simp only [advance] at h
    split at h
    · rename_i status hphase
      obtain ⟨_, h⟩ := Option.ite_none_left_eq_some.mp h
      cases h
      refine ⟨by rw [hphase]; exact Phase.noConfusion, stretch_completeTask ?_ rfl rfl⟩
      rw [hphase]
      rfl
    · rename_i status hphase
      cases h
      refine ⟨by rw [hphase]; exact Phase.noConfusion, stretch_completeTask ?_ rfl rfl⟩
      rw [hphase]
      rfl
    · cases h
  | finish =>
    obtain ⟨hphase, h⟩ := Option.ite_none_right_eq_some.mp h
    cases h
    refine ⟨?_, stretch_goTo rfl⟩
    rcases hphase with hphase | hphase <;> rw [hphase] <;> exact Phase.noConfusion

/-! ## The system -/

structure Control where
  queue : QueueStore := {}
  calls : List Call := []
  /-- The leases whose result moved canonical. -/
  advanced : List String := []

inductive Event where
  | submitTask (id : String) (planOnly : Bool) (openTurns : List String)
  | claimSubmittedTasks (ids : List String)
  | leaseNextTask (now : Int) (lease : WorkLease)
  | heartbeatWorkLease (id : String) (heartbeatAt expiresAt : Int)
  | finishWorkLease (id : String) (status : WorkLeaseStatus) (finishedAt : Int)
  | expireWorkLeases (now : Int)
  | retrySubmittedTask (id : String)
  | cancelSubmittedTask (id : String)
  | pauseSubmittedTask (id : String)
  | resumePausedTask (id : String)
  | releasePlannedTask (id : String)
  | completeSubmittedTask (id : String) (status : QueueStore.Completion)
  | openSubmittedTask (id : String)
  | expireOpenTasks (ids : List String)
  /-- A call of `acceptWorkResult` finds its lease active. -/
  | begin (leaseId : String) (now : Int)
  | call (i : Nat) (move : Move) (now : Int)
  deriving DecidableEq, Repr

/-- The store after one of its own methods; a method that throws changes nothing. -/
def Control.store (s : Control) (queue : QueueStore) : Control := { s with queue }

def Control.after (s : Control) (i : Nat) (call : Call) (done : Advance) : Control where
  queue := done.queue
  calls := s.calls.set i done.call
  advanced := if done.advanced then s.advanced ++ [call.lease] else s.advanced

def step (s : Control) : Event → Option Control
  | .submitTask id planOnly openTurns =>
    -- `createId` never repeats
    if (s.queue.tasks id).isNone then some (s.store (s.queue.submitTask id planOnly openTurns))
    else none
  | .claimSubmittedTasks ids => some (s.store (s.queue.claimSubmittedTasks ids))
  | .leaseNextTask now lease =>
    if lease.status = .active ∧ (s.queue.leases.all fun old => old.id ≠ lease.id) then
      some (s.store ((s.queue.leaseNextTask now lease).getD s.queue))
    else none
  | .heartbeatWorkLease id heartbeatAt expiresAt =>
    some (s.store (s.queue.heartbeatWorkLease id heartbeatAt expiresAt))
  | .finishWorkLease id status finishedAt =>
    if status = .active then none
    else some (s.store (s.queue.finishWorkLease id status finishedAt).1)
  | .expireWorkLeases now => some (s.store (s.queue.expireWorkLeases now))
  | .retrySubmittedTask id => some (s.store ((s.queue.retrySubmittedTask id).getD s.queue))
  | .cancelSubmittedTask id => some (s.store ((s.queue.cancelSubmittedTask id).getD s.queue))
  | .pauseSubmittedTask id => some (s.store ((s.queue.pauseSubmittedTask id).getD s.queue))
  | .resumePausedTask id => some (s.store ((s.queue.resumePausedTask id).getD s.queue))
  | .releasePlannedTask id => some (s.store ((s.queue.releasePlannedTask id).getD s.queue))
  | .completeSubmittedTask id status =>
    some (s.store ((s.queue.completeSubmittedTask id status).getD s.queue))
  | .openSubmittedTask id => some (s.store ((s.queue.openSubmittedTask id).getD s.queue))
  | .expireOpenTasks ids => some (s.store (s.queue.expireOpenTasks ids))
  | .begin leaseId now =>
    match s.queue.lease? leaseId with
    | some lease =>
      if lease.status = .active ∧ now < lease.expiresAt then
        some { s with calls := s.calls ++ [{ lease := leaseId, task := lease.taskId }] }
      else some s
    | none => some s
  | .call i move now =>
    match s.calls[i]? with
    | some call =>
      (advance s.queue call now move).map (s.after i call)
    | none => none

/-! ## Leases and calls -/

structure Tied (s : Control) : Prop where
  distinct : (s.queue.leases.map WorkLease.id).Nodup
  /-- A call is about a lease in the table, and a lease it settled is not active. -/
  known : ∀ call ∈ s.calls, ∃ lease ∈ s.queue.leases, lease.id = call.lease ∧
    lease.taskId = call.task ∧ (call.settled = true → lease.status ≠ .active)
  /-- One call at most settles a lease. -/
  settled_once : ∀ (i j : Nat) (a b : Call), s.calls[i]? = some a → s.calls[j]? = some b →
    a.settled = true → b.settled = true → a.lease = b.lease → i = j

theorem tied_init : Tied {} where
  distinct := List.nodup_nil
  known _ hcall := absurd hcall List.not_mem_nil
  settled_once i _ a _ ha := by cases ha

section Tied

variable {s : Control}

theorem Tied.unique (h : Tied s) {a b : WorkLease} (ha : a ∈ s.queue.leases)
    (hb : b ∈ s.queue.leases) (hid : a.id = b.id) : a = b :=
  List.inj_on_of_nodup_map h.distinct ha hb hid

variable {call : Call} {lease : WorkLease} {now : Int} {i : Nat}

theorem Tied.not_active (h : Tied s) (hcall : call ∈ s.calls) (hsettled : call.settled = true)
    (hlease : lease ∈ s.queue.leases) (hid : lease.id = call.lease) : lease.status ≠ .active := by
  obtain ⟨known, hknown, hknownId, _, hended⟩ := h.known call hcall
  rw [h.unique hlease hknown (hid.trans hknownId.symm)]
  exact hended hsettled

theorem Tied.taskId_eq (h : Tied s) (hcall : call ∈ s.calls) (hlease : lease ∈ s.queue.leases)
    (hid : lease.id = call.lease) : lease.taskId = call.task := by
  obtain ⟨known, hknown, hknownId, htask, _⟩ := h.known call hcall
  rw [h.unique hlease hknown (hid.trans hknownId.symm)]
  exact htask

theorem tied_store (h : Tied s) {queue : QueueStore} (hlater : s.queue.Later queue) :
    Tied (s.store queue) := by
  obtain ⟨f, hf, hleases⟩ := hlater
  refine ⟨?_, ?_, h.settled_once⟩
  · have hids : (queue.leases.map WorkLease.id) = s.queue.leases.map WorkLease.id := by
      rw [hleases, List.map_map]
      exact List.map_congr_left fun lease _ => (hf lease).id
    show (queue.leases.map WorkLease.id).Nodup
    rw [hids]
    exact h.distinct
  · intro call hcall
    obtain ⟨lease, hlease, hid, htask, hended⟩ := h.known call hcall
    refine ⟨f lease, ?_, (hf lease).id.trans hid, (hf lease).taskId.trans htask, ?_⟩
    · show f lease ∈ queue.leases
      rw [hleases]
      exact List.mem_map_of_mem hlease
    · intro hsettled hactive
      exact hended hsettled ((hf lease).active hactive)

theorem tied_leaseNextTask (h : Tied s) (hfresh : ∀ old ∈ s.queue.leases, old.id ≠ lease.id) :
    Tied (s.store ((s.queue.leaseNextTask now lease).getD s.queue)) := by
  cases hnext : s.queue.leaseNextTask now lease with
  | none => exact h
  | some queue =>
    have hexpired := tied_store h (QueueStore.later_expireWorkLeases s.queue now)
    rcases QueueStore.leaseNextTask_cases hnext with rfl | ⟨_, _, _, _, _, hleases⟩
    · exact hexpired
    · obtain ⟨f, hf, hmap⟩ := QueueStore.later_expireWorkLeases s.queue now
      refine ⟨?_, ?_, h.settled_once⟩
      · show (queue.leases.map WorkLease.id).Nodup
        rw [hleases, List.map_append]
        refine List.nodup_append.mpr ⟨hexpired.distinct, List.nodup_singleton _, ?_⟩
        intro id hid id' hid' heq
        obtain ⟨ended, hended, rfl⟩ := List.mem_map.mp hid
        rw [hmap] at hended
        obtain ⟨old, hold, rfl⟩ := List.mem_map.mp hended
        rw [List.map_singleton, List.mem_singleton] at hid'
        exact hfresh old hold ((hf old).id.symm.trans (heq.trans hid'))
      · intro call hcall
        obtain ⟨known, hknown, hrest⟩ := hexpired.known call hcall
        refine ⟨known, ?_, hrest⟩
        show known ∈ queue.leases
        rw [hleases]
        exact List.mem_append_left _ hknown

theorem tied_begin (h : Tied s) (hlease : lease ∈ s.queue.leases) :
    Tied { s with calls := s.calls ++ [{ lease := lease.id, task := lease.taskId }] } := by
  refine ⟨h.distinct, ?_, ?_⟩
  · intro call hcall
    rcases List.mem_append.mp hcall with hcall | hcall
    · exact h.known call hcall
    · cases List.mem_singleton.mp hcall
      refine ⟨lease, hlease, rfl, rfl, ?_⟩
      intro hsettled
      cases hsettled
  · intro i j a b ha hb hasettled hbsettled
    have old : ∀ (k : Nat) (c : Call),
        (s.calls ++ [{ lease := lease.id, task := lease.taskId }])[k]? = some c →
        c.settled = true → s.calls[k]? = some c := by
      intro k c hc hsettled
      rcases Nat.lt_or_ge k s.calls.length with hk | hk
      · rw [List.getElem?_append_left hk] at hc
        exact hc
      · rw [List.getElem?_append_right hk] at hc
        cases List.mem_singleton.mp (List.mem_of_getElem? hc)
        cases hsettled
    exact h.settled_once i j a b (old i a ha hasettled) (old j b hb hbsettled) hasettled hbsettled

theorem tied_set (h : Tied s) (call' : Call) (hcall : s.calls[i]? = some call)
    (hlease : call'.lease = call.lease) (htask : call'.task = call.task)
    (hsettled : call'.settled = call.settled) : Tied { s with calls := s.calls.set i call' } := by
  refine ⟨h.distinct, ?_, ?_⟩
  · intro other hother
    rcases List.mem_or_eq_of_mem_set hother with hother | rfl
    · exact h.known other hother
    · rw [hlease, htask, hsettled]
      exact h.known call (List.mem_of_getElem? hcall)
  · have old : ∀ (k : Nat) (c : Call), (s.calls.set i call')[k]? = some c →
        c.settled = true → ∃ c', s.calls[k]? = some c' ∧ c'.settled = true ∧ c'.lease = c.lease := by
      intro k c hc hset
      by_cases hk : i = k
      · cases hk
        rw [List.getElem?_set_self (List.getElem?_eq_some_iff.mp hcall).1] at hc
        cases hc
        exact ⟨call, hcall, hsettled ▸ hset, hlease.symm⟩
      · rw [List.getElem?_set_ne hk] at hc
        exact ⟨c, hc, hset, rfl⟩
    intro j k a b ha hb hasettled hbsettled hab
    obtain ⟨a', ha', hasettled', hla⟩ := old j a ha hasettled
    obtain ⟨b', hb', hbsettled', hlb⟩ := old k b hb hbsettled
    exact h.settled_once j k a' b' ha' hb' hasettled' hbsettled' (by rw [hla, hlb, hab])

theorem tied_settles (h : Tied s) {status : WorkLeaseStatus} (phase : Phase) {ended : QueueStore}
    (hcall : s.calls[i]? = some call) (hstatus : status = .completed ∨ status = .failed)
    (hended : s.queue.finishWorkLease call.lease status now = (ended, true)) :
    Tied { s with queue := ended, calls := s.calls.set i { call with phase, settled := true } } := by
  obtain ⟨lease, hlease, hid, hactive, hcan, hleases, _⟩ := QueueStore.finishWorkLease_true hended
  have hlater : s.queue.Later ended := by
    have := QueueStore.later_finishWorkLease s.queue call.lease status now
    rwa [hended] at this
  have hstore := tied_store h hlater
  have unsettled : ∀ c ∈ s.calls, c.lease = call.lease → c.settled = false := by
    intro c hc hsame
    cases hset : c.settled with
    | false => rfl
    | true => exact absurd hactive (h.not_active hc hset hlease (hid.trans hsame.symm))
  refine ⟨hstore.distinct, ?_, ?_⟩
  · intro other hother
    rcases List.mem_or_eq_of_mem_set hother with hother | rfl
    · exact hstore.known other hother
    · obtain ⟨known, hknown, hknownId, htask, _⟩ := hstore.known call (List.mem_of_getElem? hcall)
      refine ⟨known, hknown, hknownId, htask, ?_⟩
      intro _ hknownActive
      change known ∈ ended.leases at hknown
      rw [hleases] at hknown
      obtain ⟨old, hold, rfl⟩ := List.mem_map.mp hknown
      have holdId : old.id = call.lease := by
        rw [← hknownId]
        simp only [apply_ite WorkLease.id, ite_self]
      cases h.unique hold hlease (holdId.trans hid.symm)
      rw [if_pos ⟨holdId, hactive, by simpa [QueueStore.canFinish, apply_ite] using hcan⟩]
        at hknownActive
      rcases hstatus with rfl | rfl <;> cases hknownActive
  · intro j k a b ha hb hasettled hbsettled hab
    have old : ∀ (k : Nat) (c : Call),
        (s.calls.set i { call with phase, settled := true })[k]? = some c → k ≠ i →
        s.calls[k]? = some c := by
      intro k c hc hk
      rwa [List.getElem?_set_ne (Ne.symm hk)] at hc
    have new : ∀ (k : Nat) (c : Call),
        (s.calls.set i { call with phase, settled := true })[k]? = some c → k = i →
        c.lease = call.lease := by
      intro k c hc hk
      rw [hk, List.getElem?_set_self (List.getElem?_eq_some_iff.mp hcall).1] at hc
      cases hc
      rfl
    by_cases hj : j = i
    · by_cases hk : k = i
      · rw [hj, hk]
      · have := unsettled b (List.mem_of_getElem? (old k b hb hk)) (hab ▸ new j a ha hj)
        rw [this] at hbsettled
        cases hbsettled
    · have haOld := old j a ha hj
      by_cases hk : k = i
      · have := unsettled a (List.mem_of_getElem? haOld) (hab.trans (new k b hb hk))
        rw [this] at hasettled
        cases hasettled
      · exact h.settled_once j k a b haOld (old k b hb hk) hasettled hbsettled hab

theorem tied_advanced {s' : Control} (h : Tied s) (hqueue : s'.queue = s.queue)
    (hcalls : s'.calls = s.calls) : Tied s' := by
  obtain ⟨hdistinct, hknown, honce⟩ := h
  refine ⟨?_, ?_, ?_⟩
  · rw [hqueue]
    exact hdistinct
  · rw [hqueue, hcalls]
    exact hknown
  · rw [hcalls]
    exact honce

theorem tied_after (h : Tied s) {move : Move} {done : Advance} (hcall : s.calls[i]? = some call)
    (hstretch : Stretch s.queue call now move done) : Tied (s.after i call done) := by
  cases hstretch with
  | walks phase advanced =>
    exact tied_advanced (tied_set h { call with phase } hcall rfl rfl rfl) rfl rfl
  | settles status phase ended hstatus _ hended =>
    exact tied_advanced (tied_settles h phase hcall hstatus hended) rfl rfl
  | releases phase _ =>
    have hstore := tied_store h (QueueStore.later_finishWorkLease s.queue call.lease .released now)
    exact tied_advanced (tied_set hstore { call with phase } hcall rfl rfl rfl) rfl rfl
  | records status phase ended _ _ hended =>
    obtain ⟨_, rfl⟩ := QueueStore.completeSubmittedTask_some hended
    have hstore := tied_store h (QueueStore.later_update s.queue call.task [.claimed] status.status)
    exact tied_advanced (tied_set hstore { call with phase } hcall rfl rfl rfl) rfl rfl
  | returns retried _ hretried =>
    obtain ⟨_, rfl⟩ := QueueStore.retrySubmittedTask_some hretried
    have hstore :=
      tied_store h (QueueStore.later_update s.queue call.task [.claimed, .failed] .submitted)
    exact tied_advanced
      (tied_set hstore { call with phase := .requeued, returned := true } hcall rfl rfl rfl) rfl rfl

end Tied

theorem step_call {s s' : Control} {i : Nat} {move : Move} {now : Int}
    (h : step s (.call i move now) = some s') :
    ∃ call done, s.calls[i]? = some call ∧ advance s.queue call now move = some done ∧
      s' = s.after i call done := by
  simp only [step] at h
  split at h
  · rename_i call hcall
    obtain ⟨done, hdone, rfl⟩ := Option.map_eq_some_iff.mp h
    exact ⟨call, done, hcall, hdone, rfl⟩
  · cases h

/-- **What a step can do**: a method of the store adds no lease, or hands a task out under
a new one; a call begins; a call goes on. -/
inductive Steps (s : Control) : Event → Control → Prop
  | store {event : Event} (queue : QueueStore) (hlater : s.queue.Later queue) :
      Steps s event (s.store queue)
  | leases (now : Int) (lease : WorkLease) (hfresh : ∀ old ∈ s.queue.leases, old.id ≠ lease.id) :
      Steps s (.leaseNextTask now lease)
        (s.store ((s.queue.leaseNextTask now lease).getD s.queue))
  | begins {event : Event} (lease : WorkLease) (hlease : lease ∈ s.queue.leases) :
      Steps s event { s with calls := s.calls ++ [{ lease := lease.id, task := lease.taskId }] }
  | calls (i : Nat) (move : Move) (now : Int) (call : Call) (done : Advance)
      (hcall : s.calls[i]? = some call) (hdone : advance s.queue call now move = some done) :
      Steps s (.call i move now) (s.after i call done)

theorem steps_update (s : Control) (event : Event) (id : String)
    (among : List SubmittedTaskStatus) (status : SubmittedTaskStatus) :
    Steps s event (s.store (s.queue.update id among status)) :=
  .store _ (QueueStore.later_update s.queue id among status)

theorem step_cases {s s' : Control} {event : Event} (hs : step s event = some s') :
    Steps s event s' := by
  cases event with
  | submitTask id planOnly openTurns =>
    obtain ⟨_, hs⟩ := Option.ite_none_right_eq_some.mp hs
    cases hs
    exact .store _ (QueueStore.later_of_eq rfl)
  | claimSubmittedTasks ids =>
    cases hs
    exact .store _ (QueueStore.later_of_eq rfl)
  | leaseNextTask now lease =>
    obtain ⟨⟨_, hfresh⟩, hs⟩ := Option.ite_none_right_eq_some.mp hs
    cases hs
    refine .leases now lease ?_
    simpa using hfresh
  | heartbeatWorkLease id heartbeatAt expiresAt =>
    cases hs
    exact .store _ (QueueStore.later_heartbeatWorkLease s.queue id heartbeatAt expiresAt)
  | finishWorkLease id status finishedAt =>
    obtain ⟨_, hs⟩ := Option.ite_none_left_eq_some.mp hs
    cases hs
    exact .store _ (QueueStore.later_finishWorkLease s.queue id status finishedAt)
  | expireWorkLeases now =>
    cases hs
    exact .store _ (QueueStore.later_expireWorkLeases s.queue now)
  | retrySubmittedTask id =>
    cases hs
    rw [QueueStore.retrySubmittedTask, QueueStore.getD_update]
    apply steps_update
  | cancelSubmittedTask id =>
    cases hs
    rw [QueueStore.cancelSubmittedTask, QueueStore.getD_update]
    apply steps_update
  | pauseSubmittedTask id =>
    cases hs
    rw [QueueStore.pauseSubmittedTask, QueueStore.getD_update]
    apply steps_update
  | resumePausedTask id =>
    cases hs
    rw [QueueStore.resumePausedTask, QueueStore.getD_update]
    apply steps_update
  | releasePlannedTask id =>
    cases hs
    rw [QueueStore.releasePlannedTask, QueueStore.getD_update]
    apply steps_update
  | completeSubmittedTask id status =>
    cases hs
    rw [QueueStore.completeSubmittedTask, QueueStore.getD_update]
    apply steps_update
  | openSubmittedTask id =>
    cases hs
    rw [QueueStore.openSubmittedTask, QueueStore.getD_update]
    apply steps_update
  | expireOpenTasks ids =>
    cases hs
    exact .store _ (QueueStore.later_of_eq rfl)
  | begin leaseId now =>
    simp only [step] at hs
    split at hs
    · rename_i lease hlease
      have hid : lease.id = leaseId := by simpa using List.find?_some hlease
      split at hs
      · cases hs
        rw [← hid]
        exact .begins lease (List.mem_of_find?_eq_some hlease)
      · cases hs
        exact .store s.queue (QueueStore.later_of_eq rfl)
    · cases hs
      exact .store s.queue (QueueStore.later_of_eq rfl)
  | call i move now =>
    obtain ⟨call, done, hcall, hdone, rfl⟩ := step_call hs
    exact .calls i move now call done hcall hdone

theorem tied_step (s : Control) (event : Event) (s' : Control) (h : Tied s)
    (hs : step s event = some s') : Tied s' := by
  cases step_cases hs with
  | store queue hlater => exact tied_store h hlater
  | leases now lease hfresh => exact tied_leaseNextTask h hfresh
  | begins lease hlease => exact tied_begin h hlease
  | calls i move now call done hcall hdone => exact tied_after h hcall (advance_cases hdone).2

theorem tied_run {events : List Event} {s : Control} (hs : run step {} events = some s) : Tied s :=
  run_keeps tied_step tied_init hs

end AgenticGit.Cli.ResultCalls
