import AgenticGit.Cli.ResultCalls

/- Crashes of the control plane and what recovery does at the next start
   (`recovery.ts`, over `prepareTask`, `integrateTask` and `repairChangeSet` of
   `coordinator.ts`, the settlement loop of `commands.ts` and `rollbackCanonical` of
   `rollback.ts`).

   A changeset is saved before it is reviewed, and its integration after it was
   promoted. Recovery takes what is saved and not decided to be work that only has to be
   promoted, and reads neither the approvals nor the queue.

   What is proved:
     1. `recovered` — **recovery promotes only what was cleared, and once**, and what is in
        canonical is neither queued again nor recorded as failed, in every run in which the
        process never stops where the last saved changeset is not cleared or its task was
        stopped, nor between a promotion and the end of its task, and in which nothing
        throws in between.
     2. `recovered_uncleared` — where it does stop there, it is not so.

   Correspondence (TypeScript ↔ Lean):
     a task's row of a run, its changesets and integrations, the run's `running`, and its
       row in `submitted_tasks`, none for a rollback          ↔ `Task`
     where the process stands with a task, between two steps that write ↔ `Doing`
     the commits with the trailer `Change-Set-Id`             ↔ `Task.canonical`
     `approvalPolicy.changesetReasons`, with `rollbackReasons` and `planReasons` for a
       rollback, not empty                                    ↔ `Collected.review`
     `integrations.integrate`                                 ↔ the status it answers
     `claimSubmittedTasks` before a row is completed          ↔ `Event.reclaimed`
     the expiry of a lease, and `reapStrandedWork`            ↔ `Act.requeued`
   A second run of a task starts from new rows; the old run was closed by then. What
   continues a conversation is left out, and so is what a person does to an ended task. -/
namespace AgenticGit.Cli.CrashRecovery
open AgenticGit.Runs AgenticGit.Persistence
open AgenticGit.Cli.ResultCalls (IntegrationStatus)

/-! ## Tasks -/

/-- The status of a task's row in a run. -/
inductive TaskStatus where
  | planning | running | awaitingApproval | validating | integrated | failed | paused | cancelled
  deriving DecidableEq, Repr

def terminalTaskStatuses : List TaskStatus := [.integrated, .failed, .cancelled]

/-- A changeset as it is saved. -/
structure Collected where
  id : String
  /-- Somebody has to approve it before it is integrated. -/
  review : Bool
  deriving DecidableEq, Repr

structure Integration where
  changeSetId : String
  status : IntegrationStatus
  deriving DecidableEq, Repr

/-- What the process is doing with a task. -/
inductive Doing where
  /-- The plan is made, and perhaps under review. -/
  | planned
  | working
  /-- The changeset is saved; with the integration it is to repair, when it is a repair. -/
  | collected (changeSet : Collected) (first : Option Integration)
  /-- It may be integrated. -/
  | cleared (changeSet : Collected) (first : Option Integration)
  /-- What integration answered, which is not saved yet. -/
  | integrated (result : Integration)
  | repaired (second first : Integration)
  /-- The integration is saved. -/
  | recorded (result : Integration)
  /-- The row has its ending. -/
  | ended
  /-- What integration answered recovery. -/
  | resumed (result : Integration)
  deriving DecidableEq, Repr

structure Task where
  id : String
  queued : Option SubmittedTaskStatus
  planReview : Bool := false
  planApproved : Bool := false
  status : TaskStatus := .planning
  /-- The run is recorded as running. -/
  running : Bool := false
  changeSets : List Collected := []
  approved : List String := []
  integrations : List Integration := []
  /-- Somebody cancelled or paused it since it was handed out. -/
  stopped : Bool := false
  canonical : List String := []
  doing : Option Doing := none
  /-- Recovery has tried to resume it in this pass. -/
  tried : Bool := false
  deriving DecidableEq, Repr

namespace Task

/-- The last changeset recorded for the task that no integration is recorded for. -/
def resumableChangeSet (task : Task) : Option Collected :=
  (task.changeSets.filter fun changeSet =>
    changeSet.id ∉ task.integrations.map Integration.changeSetId).getLast?

def stranded (task : Task) : Option Collected :=
  if task.running ∧ task.status ∉ terminalTaskStatuses then task.resumableChangeSet else none

/-- Everything the normal path asks for before it integrates the changeset is granted. -/
def isCleared (task : Task) (changeSet : Collected) : Bool :=
  (!task.planReview || task.planApproved) &&
    (!changeSet.review || changeSet.id ∈ task.approved)

end Task

/-! ## One task -/

inductive Process where
  | serving | down | recovering
  deriving DecidableEq, Repr

inductive Act where
  /-- A queued task is claimed for a new run. -/
  | leased (planReview : Bool)
  | planApproved
  | started
  /-- The changeset is saved. -/
  | collected (changeSet : Collected)
  /-- It is approved, or need not be. -/
  | granted
  | integrate (status : IntegrationStatus)
  /-- The agent reconciles what conflicted, and the repaired changeset is saved. -/
  | repair (changeSet : Collected)
  /-- The repair is given up. -/
  | abandoned
  | recorded
  | ended
  /-- Something throws: an approval is refused, a session is torn down. -/
  | threw
  | runEnded
  /-- The row of the queue is completed. -/
  | settled
  | stopped (pause : Bool)
  | requeued
  | resumed (status : IntegrationStatus)
  /-- Recovery fails what it found in flight, and closes the run. -/
  | closed
  deriving DecidableEq, Repr

def standing (second first : Integration) : Integration :=
  if second.status = .integrated then second else first

/-- Whether a throw is caught by `prepareTask`, which asks whether the task was stopped. -/
def Doing.preparing : Doing → Bool
  | .planned | .working | .collected _ none => true
  | _ => false

namespace Task

/-- The changeset is integrated: when it is promoted it is in canonical. -/
def promote (task : Task) (changeSet : Collected) (status : IntegrationStatus) : Task :=
  if status = .integrated then { task with canonical := task.canonical ++ [changeSet.id] }
  else task

def record (task : Task) (result : Integration) (doing : Option Doing) : Task :=
  { task with integrations := task.integrations ++ [result], doing }

def fresh (task : Task) (changeSet : Collected) : Bool :=
  changeSet.id ∉ task.changeSets.map Collected.id && changeSet.id ∉ task.canonical

def save (task : Task) (changeSet : Collected) (first : Option Integration) : Task :=
  { task with
    changeSets := task.changeSets ++ [changeSet]
    status := if changeSet.review then .awaitingApproval else task.status
    doing := some (.collected changeSet first) }

/-- What `completeSubmittedTask` makes of the row: it completes a claimed one. -/
def complete (task : Task) : Task :=
  if task.queued = some .claimed then
    match task.status with
    | .integrated => { task with queued := some .integrated, doing := none }
    | .failed => { task with queued := some .failed, doing := none }
    | _ => { task with doing := none }
  else { task with doing := none }

def act (process : Process) (task : Task) : Act → Option Task
  | .leased planReview =>
    if process = .serving ∧ task.queued = some .submitted ∧ task.doing = none then
      some { id := task.id, queued := some .claimed, planReview, running := true,
             canonical := task.canonical, doing := some .planned }
    else none
  | .planApproved =>
    if task.doing = some .planned then some { task with planApproved := true } else none
  | .started =>
    if task.doing = some .planned ∧ (task.planReview = false ∨ task.planApproved) then
      some { task with status := .running, doing := some .working }
    else none
  | .collected changeSet =>
    if task.doing = some .working ∧ task.fresh changeSet then some (task.save changeSet none)
    else none
  | .granted =>
    match task.doing with
    | some (.collected changeSet first) =>
      some { task with
        approved := if changeSet.review then task.approved ++ [changeSet.id] else task.approved
        doing := some (.cleared changeSet first) }
    | _ => none
  | .integrate status =>
    match task.doing with
    | some (.cleared changeSet none) =>
      some { task.promote changeSet status with
        status := .validating, doing := some (.integrated ⟨changeSet.id, status⟩) }
    | some (.cleared changeSet (some first)) =>
      some { task.promote changeSet status with
        doing := some (.repaired ⟨changeSet.id, status⟩ first) }
    | _ => none
  | .repair changeSet =>
    match task.doing with
    | some (.integrated first) =>
      if task.fresh changeSet then some (task.save changeSet (some first)) else none
    | _ => none
  | .abandoned =>
    match task.doing with
    | some (.collected _ (some first)) => some { task with doing := some (.integrated first) }
    | _ => none
  | .recorded =>
    match task.doing with
    | some (.integrated result) => some (task.record result (some (.recorded result)))
    | some (.repaired second first) =>
      some (task.record second (some (.integrated (standing second first))))
    | some (.resumed result) =>
      some (task.record result
        (if result.status = .integrated then some (.recorded result) else none))
    | _ => none
  | .ended =>
    match task.doing with
    | some (.recorded result) =>
      some { task with
        -- a report that changes no file is integrated too
        status := if result.status = .integrated ∨ result.status = .empty then .integrated
          else .failed
        doing := some .ended }
    | _ => none
  | .threw =>
    match process, task.doing with
    | .serving, some doing =>
      if doing = .ended then none
      else
        some { task with
          status := if doing.preparing ∧ task.stopped then
              if task.queued = some .paused then .paused else .cancelled
            else .failed
          doing := some .ended }
    | .recovering, some _ => some { task with doing := none }
    | _, _ => none
  | .runEnded =>
    if task.doing = some .ended ∧ process = .serving then some { task with running := false }
    else none
  | .settled =>
    if task.doing = some .ended ∧ task.queued ≠ some .submitted ∧
        (process = .serving → task.running = false) then
      some task.complete
    else none
  | .stopped pause =>
    if process = .serving ∧ (task.queued = some .submitted ∨ task.queued = some .claimed) then
      some { task with queued := some (if pause then .paused else .cancelled), stopped := true }
    else none
  | .requeued =>
    if task.doing = none ∧ task.queued = some .claimed then
      some { task with queued := some .submitted }
    else none
  | .resumed status =>
    match task.stranded with
    | some changeSet =>
      if process = .recovering ∧ task.doing = none ∧ task.tried = false then
        some { task.promote changeSet status with
          tried := true, doing := some (.resumed ⟨changeSet.id, status⟩) }
      else none
    | none => none
  | .closed =>
    if process = .recovering ∧ task.doing = none ∧ task.running then
      some { task with
        status := if task.status ∈ terminalTaskStatuses then task.status else .failed
        running := false }
    else none

end Task

/-! ## The control plane -/

/-- A changeset recovery promoted. -/
structure Resumption where
  changeSetId : String
  stopped : Bool
  cleared : Bool
  deriving DecidableEq, Repr

structure State where
  process : Process := .serving
  tasks : List Task := []
  resumptions : List Resumption := []
  deriving DecidableEq, Repr

inductive Event where
  | submitted (id : String)
  /-- Somebody rolls canonical back. -/
  | rollback (id : String)
  | act (id : String) (act : Act)
  | crashed
  /-- The process stops as planned, and hands back what it holds. -/
  | drained
  | booted
  /-- Recovery claims the whole queue, to complete one row of it. -/
  | reclaimed
  | served
  deriving DecidableEq, Repr

def Act.alone : Act → Bool
  | .resumed _ | .closed => true
  | _ => false

def Task.resumption (task : Task) : Act → List Resumption
  | .resumed .integrated =>
    (task.stranded.map fun changeSet =>
      ⟨changeSet.id, task.stopped, task.isCleared changeSet⟩).toList
  | _ => []

def Task.drop (task : Task) : Task := { task with doing := none }

def Task.requeue (source target : SubmittedTaskStatus) (task : Task) : Task :=
  if task.queued = some source then { task with queued := some target } else task

def State.idle (s : State) : Bool := s.tasks.all fun task => task.doing.isNone

def step (s : State) : Event → Option State
  | .submitted id =>
    if s.process = .serving ∧ id ∉ s.tasks.map Task.id then
      some { s with tasks := s.tasks ++ [{ id, queued := some .submitted }] }
    else none
  | .rollback id =>
    if s.process = .serving ∧ id ∉ s.tasks.map Task.id then
      some { s with
        tasks := s.tasks ++ [{ id, queued := none, running := true, doing := some .planned }] }
    else none
  | .act id act =>
    if act.alone ∧ s.idle = false then none
    else do
      let task ← s.tasks.find? fun task => task.id = id
      let done ← task.act s.process act
      return { s with
        tasks := s.tasks.map fun other => if other.id = id then done else other
        resumptions := s.resumptions ++ task.resumption act }
  | .crashed => some { s with process := .down, tasks := s.tasks.map Task.drop }
  | .drained =>
    if s.process = .serving then
      some { s with
        process := .down
        tasks := s.tasks.map fun task => (task.requeue .claimed .submitted).drop }
    else none
  | .booted =>
    if s.process = .down then
      some { s with
        process := .recovering, tasks := s.tasks.map fun task => { task with tried := false } }
    else none
  | .reclaimed =>
    if s.process = .recovering ∧ s.tasks.any (fun task => task.doing = some .ended) then
      some { s with tasks := s.tasks.map (Task.requeue .submitted .claimed) }
    else none
  | .served =>
    if s.process = .recovering ∧ s.idle ∧ s.tasks.all (fun task => task.running = false) then
      some { s with process := .serving }
    else none

/-! ## Recovery that is safe -/

/-- Recovery promotes only what was cleared and nobody stopped; nothing is promoted twice;
and a task whose changeset is in canonical is not queued again or recorded as failed when
nothing more is done with it. -/
structure Recovered (s : State) : Prop where
  cleared : ∀ resumption ∈ s.resumptions,
    resumption.stopped = false ∧ resumption.cleared = true
  once : ∀ task ∈ s.tasks, task.canonical.Nodup
  kept : ∀ task ∈ s.tasks, task.canonical ≠ [] → task.doing = none →
    task.status ≠ .failed ∧ task.queued ≠ some .submitted ∧ task.queued ≠ some .failed

/-- The process may stop here: what it would resume the task with is cleared, and nobody
stopped the task; and what it promoted is settled. -/
def Task.Recoverable (task : Task) : Prop :=
  (∀ changeSet ∈ task.stranded, task.stopped = false ∧ task.isCleared changeSet = true) ∧
    (task.doing.isSome → task.canonical = [])

instance (task : Task) : Decidable task.Recoverable := inferInstanceAs (Decidable (_ ∧ _))

def Careful (s : State) : Event → Prop
  | .crashed | .drained => ∀ task ∈ s.tasks, task.Recoverable
  | .act id act => act = .threw → ∀ task ∈ s.tasks, task.id = id → task.canonical = []
  | _ => True

instance (s : State) : DecidablePred (Careful s)
  | .crashed | .drained => inferInstanceAs (Decidable (∀ task ∈ s.tasks, task.Recoverable))
  | .act id act => inferInstanceAs (Decidable (act = .threw →
      ∀ task ∈ s.tasks, task.id = id → task.canonical = []))
  | .submitted _ | .rollback _ | .booted | .reclaimed | .served => isTrue trivial

/-! ## One step -/

section
-- the equations of `act`, made once for all the theorems below
attribute [local simp] Task.act
end

/-- What holds of a task with a changeset in canonical, as far as the process has got. -/
def Task.Phase (task : Task) : Option Doing → Prop
  | none => task.canonical ≠ [] → task.status = .integrated ∧
      task.queued ∉ [some .submitted, some .claimed, some .failed]
  | some .planned | some .working => task.canonical = []
  | some (.collected changeSet first) | some (.cleared changeSet first) =>
    changeSet.id ∉ task.canonical ∧
      (task.canonical ≠ [] → ∃ result ∈ first, result.status = .integrated)
  | some (.integrated result) | some (.recorded result) | some (.resumed result) =>
    task.canonical ≠ [] → result.status = .integrated
  | some (.repaired second first) =>
    task.canonical ≠ [] → second.status = .integrated ∨ first.status = .integrated
  | some .ended => task.canonical ≠ [] → task.status = .integrated

structure Sound (process : Process) (task : Task) : Prop where
  once : task.canonical.Nodup
  phase : task.Phase task.doing
  failed : task.queued = some .failed → task.doing = none ∧ task.status ∈ terminalTaskStatuses
  down : process = .down → task.doing = none
  recovering : process = .recovering → task.doing.isSome → task.tried = true
  waiting : process = .down ∨ (process = .recovering ∧ task.tried = false) →
    ∀ changeSet ∈ task.stranded, task.stopped = false ∧ task.isCleared changeSet = true

section
variable {process : Process} {task done : Task}

theorem Sound.next (h : Sound process task) (hdoing : task.doing.isSome)
    (hqueued : done.queued = task.queued) (htried : done.tried = task.tried)
    (honce : done.canonical.Nodup) (hphase : done.Phase done.doing) : Sound process done := by
  have hsome : task.doing ≠ none := Option.isSome_iff_ne_none.mp hdoing
  refine ⟨honce, hphase, fun hfailed => ?_, fun hdown => ?_, fun hrecovering _ => ?_, ?_⟩
  · exact absurd (h.failed (hqueued ▸ hfailed)).1 hsome
  · exact absurd (h.down hdown) hsome
  · rw [htried]
    exact h.recovering hrecovering hdoing
  · rintro (hdown | ⟨hrecovering, hnot⟩)
    · exact absurd (h.down hdown) hsome
    · rw [htried, h.recovering hrecovering hdoing] at hnot
      cases hnot

theorem Sound.over (h : Sound process task) (hdoing : task.doing.isSome)
    (hnext : done.doing = none) (htried : done.tried = task.tried)
    (hfailed : done.queued = some .failed → done.status ∈ terminalTaskStatuses)
    (honce : done.canonical.Nodup) (hphase : done.Phase none) : Sound process done := by
  have hsome : task.doing ≠ none := Option.isSome_iff_ne_none.mp hdoing
  refine ⟨honce, hnext ▸ hphase, fun hqueued => ⟨hnext, hfailed hqueued⟩, fun _ => hnext,
    fun _ hsome => ?_, ?_⟩
  · rw [hnext] at hsome
    cases hsome
  · rintro (hdown | ⟨hrecovering, hnot⟩)
    · exact absurd (h.down hdown) hsome
    · rw [htried, h.recovering hrecovering hdoing] at hnot
      cases hnot

/-- A queued row leaves a task that nothing is done with as it is, when it is not moved
where a task with a changeset in canonical must not go. -/
theorem Sound.move (h : Sound process task) {queued : Option SubmittedTaskStatus} {stopped : Bool}
    (hcanonical : task.canonical ≠ [] → task.doing = none →
      queued ∉ [some .submitted, some .claimed, some .failed])
    (hfailed : queued ≠ some .failed) (hstopped : process = .serving ∨ stopped = task.stopped) :
    Sound process { task with queued, stopped } := by
  refine ⟨h.once, ?_, fun hqueued => absurd hqueued hfailed, h.down, h.recovering, ?_⟩
  · have hphase := h.phase
    cases hdoing : task.doing with
    | none =>
      rw [hdoing] at hphase
      exact fun hne => ⟨(hphase hne).1, hcanonical hne hdoing⟩
    | some doing =>
      rw [hdoing] at hphase
      cases doing <;> exact hphase
  · rcases hstopped with rfl | rfl
    · rintro (hdown | ⟨hrecovering, -⟩)
      · cases hdown
      · cases hrecovering
    · exact h.waiting

theorem fresh_notMem {changeSet : Collected} (h : task.fresh changeSet = true) :
    changeSet.id ∉ task.canonical := by
  unfold Task.fresh at h
  rw [Bool.and_eq_true] at h
  exact of_decide_eq_true h.2

section
variable {changeSet : Collected} {status : IntegrationStatus}

@[simp] theorem promote_queued : (task.promote changeSet status).queued = task.queued := by
  unfold Task.promote
  split <;> rfl

@[simp] theorem promote_tried : (task.promote changeSet status).tried = task.tried := by
  unfold Task.promote
  split <;> rfl

theorem promote_once (honce : task.canonical.Nodup) (hnot : changeSet.id ∉ task.canonical) :
    (task.promote changeSet status).canonical.Nodup := by
  unfold Task.promote
  split
  · refine List.nodup_append.mpr ⟨honce, List.nodup_singleton _, fun a ha b hb heq => ?_⟩
    rw [List.mem_singleton.mp hb] at heq
    exact hnot (heq ▸ ha)
  · exact honce

theorem promote_canonical (h : (task.promote changeSet status).canonical ≠ []) :
    status = .integrated ∨ task.canonical ≠ [] := by
  unfold Task.promote at h
  split at h
  · exact .inl ‹_›
  · exact .inr h

end

theorem sound_leased {planReview : Bool} (h : Sound process task)
    (hact : task.act process (.leased planReview) = some done) : Sound process done := by
  simp only [Task.act] at hact
  rw [Option.ite_none_right_eq_some] at hact
  obtain ⟨⟨rfl, hqueued, hdoing⟩, hact⟩ := hact
  obtain rfl := Option.some.inj hact
  have hnothing : task.canonical = [] := by
    by_contra hne
    have hphase := h.phase
    rw [hdoing] at hphase
    exact (hphase hne).2 (by simp [hqueued])
  refine ⟨h.once, hnothing, nofun, nofun, nofun, ?_⟩
  rintro (hdown | ⟨hrecovering, -⟩)
  · cases hdown
  · cases hrecovering

variable {act : Act} {changeSet : Collected} {status : IntegrationStatus}
  {source target : SubmittedTaskStatus}

theorem sound_prepared (hbefore : act = .planApproved ∨ act = .started) (h : Sound process task)
    (hact : task.act process act = some done) : Sound process done := by
  have hphase := h.phase
  rcases hbefore with rfl | rfl
  · simp only [Task.act] at hact
    rw [Option.ite_none_right_eq_some] at hact
    obtain ⟨hdoing, hact⟩ := hact
    obtain rfl := Option.some.inj hact
    exact h.next (by rw [hdoing]; rfl) rfl rfl h.once hphase
  · simp only [Task.act] at hact
    rw [Option.ite_none_right_eq_some] at hact
    obtain ⟨⟨hdoing, -⟩, hact⟩ := hact
    obtain rfl := Option.some.inj hact
    rw [hdoing] at hphase
    exact h.next (by rw [hdoing]; rfl) rfl rfl h.once hphase

theorem sound_collected (h : Sound process task)
    (hact : task.act process (.collected changeSet) = some done) : Sound process done := by
  simp only [Task.act] at hact
  rw [Option.ite_none_right_eq_some] at hact
  obtain ⟨⟨hdoing, hfresh⟩, hact⟩ := hact
  have hnot := fresh_notMem hfresh
  obtain rfl := Option.some.inj hact
  have hphase := h.phase
  rw [hdoing] at hphase
  exact h.next (by rw [hdoing]; rfl) rfl rfl h.once ⟨hnot, fun hne => absurd hphase hne⟩

theorem sound_granted (h : Sound process task)
    (hact : task.act process .granted = some done) : Sound process done := by
  have hphase := h.phase
  simp only [Task.act] at hact
  split at hact
  · rename_i changeSet first hdoing
    obtain rfl := Option.some.inj hact
    rw [hdoing] at hphase
    exact h.next (by rw [hdoing]; rfl) rfl rfl h.once hphase
  · cases hact

theorem sound_integrate (h : Sound process task)
    (hact : task.act process (.integrate status) = some done) : Sound process done := by
  have hphase := h.phase
  simp only [Task.act] at hact
  split at hact
  · rename_i changeSet hdoing
    obtain rfl := Option.some.inj hact
    rw [hdoing] at hphase
    obtain ⟨hnot, hfirst⟩ := hphase
    refine h.next (by rw [hdoing]; rfl) promote_queued promote_tried
      (promote_once h.once hnot) fun hne => ?_
    rcases promote_canonical hne with hstatus | hne
    · exact hstatus
    · obtain ⟨result, hnone, -⟩ := hfirst hne
      cases hnone
  · rename_i changeSet first hdoing
    obtain rfl := Option.some.inj hact
    rw [hdoing] at hphase
    obtain ⟨hnot, hfirst⟩ := hphase
    refine h.next (by rw [hdoing]; rfl) promote_queued promote_tried
      (promote_once h.once hnot) fun hne => ?_
    rcases promote_canonical hne with hstatus | hne
    · exact .inl hstatus
    · obtain ⟨result, hsome, hresult⟩ := hfirst hne
      exact .inr (Option.some.inj hsome ▸ hresult)
  · cases hact

theorem sound_repair (h : Sound process task)
    (hact : task.act process (.repair changeSet) = some done) : Sound process done := by
  have hphase := h.phase
  simp only [Task.act] at hact
  split at hact
  · rename_i first hdoing
    rw [Option.ite_none_right_eq_some] at hact
    obtain ⟨hfresh, hact⟩ := hact
    have hnot := fresh_notMem hfresh
    obtain rfl := Option.some.inj hact
    rw [hdoing] at hphase
    exact h.next (by rw [hdoing]; rfl) rfl rfl h.once
      ⟨hnot, fun hne => ⟨first, rfl, hphase hne⟩⟩
  · cases hact

theorem sound_abandoned (h : Sound process task)
    (hact : task.act process .abandoned = some done) : Sound process done := by
  have hphase := h.phase
  simp only [Task.act] at hact
  split at hact
  · rename_i changeSet first hdoing
    obtain rfl := Option.some.inj hact
    rw [hdoing] at hphase
    refine h.next (by rw [hdoing]; rfl) rfl rfl h.once fun hne => ?_
    obtain ⟨result, hsome, hresult⟩ := hphase.2 hne
    exact Option.some.inj hsome ▸ hresult
  · cases hact

theorem standing_integrated {second first : Integration}
    (h : second.status = .integrated ∨ first.status = .integrated) :
    (standing second first).status = .integrated := by
  unfold standing
  split
  · assumption
  · exact h.resolve_left ‹_›

theorem sound_recorded (h : Sound process task)
    (hact : task.act process .recorded = some done) : Sound process done := by
  have hphase := h.phase
  simp only [Task.act] at hact
  split at hact
  · rename_i result hdoing
    obtain rfl := Option.some.inj hact
    rw [hdoing] at hphase
    exact h.next (by rw [hdoing]; rfl) rfl rfl h.once hphase
  · rename_i second first hdoing
    obtain rfl := Option.some.inj hact
    rw [hdoing] at hphase
    exact h.next (by rw [hdoing]; rfl) rfl rfl h.once
      fun hne => standing_integrated (hphase hne)
  · rename_i result hdoing
    obtain rfl := Option.some.inj hact
    rw [hdoing] at hphase
    split
    · exact h.next (by rw [hdoing]; rfl) rfl rfl h.once hphase
    · rename_i hrefused
      refine h.over (by rw [hdoing]; rfl) rfl rfl (fun hqueued => ?_) h.once
        fun hne => absurd (hphase hne) hrefused
      exact (h.failed hqueued).2
  · cases hact

theorem sound_ended (h : Sound process task)
    (hact : task.act process .ended = some done) : Sound process done := by
  have hphase := h.phase
  simp only [Task.act] at hact
  split at hact
  · rename_i result hdoing
    obtain rfl := Option.some.inj hact
    rw [hdoing] at hphase
    exact h.next (by rw [hdoing]; rfl) rfl rfl h.once fun hne => if_pos (.inl (hphase hne))
  · cases hact

theorem sound_threw (h : Sound process task) (hnothing : task.canonical = [])
    (hact : task.act process .threw = some done) : Sound process done := by
  simp only [Task.act] at hact
  split at hact
  · rename_i doing hdoing
    rw [Option.ite_none_left_eq_some] at hact
    obtain ⟨-, hact⟩ := hact
    obtain rfl := Option.some.inj hact
    exact h.next (by rw [hdoing]; rfl) rfl rfl h.once fun hne => absurd hnothing hne
  · rename_i doing hdoing
    obtain rfl := Option.some.inj hact
    refine h.over (by rw [hdoing]; rfl) rfl rfl (fun hqueued => ?_) h.once
      fun hne => absurd hnothing hne
    exact (h.failed hqueued).2
  · cases hact

theorem sound_runEnded (h : Sound process task)
    (hact : task.act process .runEnded = some done) : Sound process done := by
  have hphase := h.phase
  simp only [Task.act] at hact
  rw [Option.ite_none_right_eq_some] at hact
  obtain ⟨⟨hdoing, -⟩, hact⟩ := hact
  obtain rfl := Option.some.inj hact
  rw [hdoing] at hphase
  refine h.next (by rw [hdoing]; rfl) rfl rfl h.once ?_
  rw [hdoing]
  exact hphase

theorem sound_settled (h : Sound process task)
    (hact : task.act process .settled = some done) : Sound process done := by
  have hphase := h.phase
  simp only [Task.act] at hact
  rw [Option.ite_none_right_eq_some] at hact
  obtain ⟨⟨hdoing, hqueued, -⟩, hact⟩ := hact
  obtain rfl := Option.some.inj hact
  rw [hdoing] at hphase
  have hsome : task.doing.isSome := by
    rw [hdoing]
    rfl
  have hnot : task.queued ≠ some .failed := by
    intro hfailed
    rw [(h.failed hfailed).1] at hdoing
    cases hdoing
  unfold Task.complete
  split
  · split
    · rename_i hstatus
      exact h.over hsome rfl rfl nofun h.once fun _ => ⟨hstatus, by simp⟩
    · rename_i hstatus
      refine h.over hsome rfl rfl (fun _ => ?_) h.once fun hne => ?_
      · simp [terminalTaskStatuses, hstatus]
      · rw [hphase hne] at hstatus
        cases hstatus
    · rename_i hnever _
      exact h.over hsome rfl rfl (fun hfailed => absurd hfailed hnot) h.once
        fun hne => absurd (hphase hne) hnever
  · rename_i hclaimed
    refine h.over hsome rfl rfl (fun hfailed => absurd hfailed hnot) h.once
      fun hne => ⟨hphase hne, ?_⟩
    simp only [List.mem_cons, List.not_mem_nil, or_false, not_or]
    exact ⟨hqueued, hclaimed, hnot⟩

theorem sound_stopped {pause : Bool} (h : Sound process task)
    (hact : task.act process (.stopped pause) = some done) : Sound process done := by
  simp only [Task.act] at hact
  rw [Option.ite_none_right_eq_some] at hact
  obtain ⟨⟨hserving, -⟩, hact⟩ := hact
  obtain rfl := Option.some.inj hact
  refine h.move (fun _ _ => ?_) ?_ (.inl hserving) <;> cases pause <;> decide

theorem sound_requeued (h : Sound process task)
    (hact : task.act process .requeued = some done) : Sound process done := by
  have hphase := h.phase
  simp only [Task.act] at hact
  rw [Option.ite_none_right_eq_some] at hact
  obtain ⟨⟨hdoing, hqueued⟩, hact⟩ := hact
  obtain rfl := Option.some.inj hact
  rw [hdoing] at hphase
  exact h.move (fun hne _ => absurd (by simp [hqueued]) (hphase hne).2) nofun (.inr rfl)

theorem stranded_nothing (h : Sound process task) (hdoing : task.doing = none)
    (hstranded : task.stranded = some changeSet) :
    task.canonical = [] ∧ task.status ∉ terminalTaskStatuses := by
  have hphase := h.phase
  rw [hdoing] at hphase
  unfold Task.stranded at hstranded
  rw [Option.ite_none_right_eq_some] at hstranded
  obtain ⟨⟨-, hopen⟩, -⟩ := hstranded
  refine ⟨?_, hopen⟩
  by_contra hne
  rw [(hphase hne).1] at hopen
  exact hopen (by decide)

theorem sound_resumed (h : Sound process task)
    (hact : task.act process (.resumed status) = some done) : Sound process done := by
  simp only [Task.act] at hact
  split at hact
  · rename_i changeSet hstranded
    rw [Option.ite_none_right_eq_some] at hact
    obtain ⟨⟨rfl, hdoing, -⟩, hact⟩ := hact
    obtain rfl := Option.some.inj hact
    obtain ⟨hnothing, hopen⟩ := stranded_nothing h hdoing hstranded
    refine ⟨promote_once h.once (by simp [hnothing]), fun hne => ?_, fun hfailed => ?_, nofun,
      fun _ _ => rfl, ?_⟩
    · exact (promote_canonical hne).resolve_right (absurd hnothing)
    · rw [promote_queued] at hfailed
      exact absurd (h.failed hfailed).2 hopen
    · rintro (hdown | ⟨-, hnot⟩)
      · cases hdown
      · cases hnot
  · cases hact

theorem sound_closed (h : Sound process task)
    (hact : task.act process .closed = some done) : Sound process done := by
  have hphase := h.phase
  simp only [Task.act] at hact
  rw [Option.ite_none_right_eq_some] at hact
  obtain ⟨⟨rfl, hdoing, -⟩, hact⟩ := hact
  obtain rfl := Option.some.inj hact
  refine ⟨h.once, ?_, fun hfailed => ?_, nofun, h.recovering, ?_⟩
  · rw [hdoing] at hphase ⊢
    intro hne
    obtain ⟨hstatus, hqueued⟩ := hphase hne
    refine ⟨?_, hqueued⟩
    rw [if_pos (by rw [hstatus]; decide)]
    exact hstatus
  · obtain ⟨hdoing, hterminal⟩ := h.failed hfailed
    refine ⟨hdoing, ?_⟩
    rw [if_pos hterminal]
    exact hterminal
  · intro _ changeSet hstranded
    simp [Task.stranded] at hstranded

/-- **Every step of the process with a task keeps it sound.** -/
theorem sound_act (h : Sound process task) (hthrew : act = .threw → task.canonical = [])
    (hact : task.act process act = some done) : Sound process done := by
  cases act with
  | leased planReview => exact sound_leased h hact
  | planApproved => exact sound_prepared (.inl rfl) h hact
  | started => exact sound_prepared (.inr rfl) h hact
  | collected changeSet => exact sound_collected h hact
  | granted => exact sound_granted h hact
  | integrate status => exact sound_integrate h hact
  | repair changeSet => exact sound_repair h hact
  | abandoned => exact sound_abandoned h hact
  | recorded => exact sound_recorded h hact
  | ended => exact sound_ended h hact
  | threw => exact sound_threw h (hthrew rfl) hact
  | runEnded => exact sound_runEnded h hact
  | settled => exact sound_settled h hact
  | stopped pause => exact sound_stopped h hact
  | requeued => exact sound_requeued h hact
  | resumed status => exact sound_resumed h hact
  | closed => exact sound_closed h hact

theorem resumption_cleared (h : Sound process task) (hact : task.act process act = some done) :
    ∀ resumption ∈ task.resumption act,
      resumption.stopped = false ∧ resumption.cleared = true := by
  intro resumption hmem
  unfold Task.resumption at hmem
  split at hmem
  · simp only [Task.act] at hact
    split at hact
    · rename_i changeSet hstranded
      rw [Option.ite_none_right_eq_some] at hact
      obtain ⟨⟨hrecovering, -, htried⟩, -⟩ := hact
      rw [hstranded, Option.map_some, Option.toList_some, List.mem_singleton] at hmem
      rw [hmem]
      exact h.waiting (.inr ⟨hrecovering, htried⟩) changeSet hstranded
    · cases hact
  · cases hmem

theorem sound_dropped (h : Sound process task) (hcareful : task.Recoverable) :
    Sound .down task.drop := by
  have hphase := h.phase
  refine ⟨h.once, fun hne => ?_, fun hfailed => ⟨rfl, (h.failed hfailed).2⟩, fun _ => rfl, nofun,
    fun _ => hcareful.1⟩
  cases hdoing : task.doing with
  | none =>
    rw [hdoing] at hphase
    exact hphase hne
  | some doing => exact absurd (hcareful.2 (by rw [hdoing]; rfl)) hne

theorem sound_requeue (h : Sound process task) (hsource : source = .submitted ∨ source = .claimed)
    (htarget : target ≠ .failed) : Sound process (task.requeue source target) := by
  have hphase := h.phase
  unfold Task.requeue
  split
  · rename_i hqueued
    refine h.move (fun hne hdoing => ?_) (fun hfailed => htarget (Option.some.inj hfailed))
      (.inr rfl)
    rw [hdoing] at hphase
    refine absurd ?_ (hphase hne).2
    rcases hsource with rfl | rfl <;> simp [hqueued]
  · exact h

theorem recoverable_requeue (h : task.Recoverable) : (task.requeue source target).Recoverable := by
  unfold Task.requeue
  split <;> exact h

end

/-! ## Runs -/

structure Kept (s : State) : Prop where
  tasks : ∀ task ∈ s.tasks, Sound s.process task
  resumptions : ∀ resumption ∈ s.resumptions,
    resumption.stopped = false ∧ resumption.cleared = true

theorem sound_new {task : Task} (hcanonical : task.canonical = [])
    (hqueued : task.queued ≠ some .failed)
    (hdoing : task.doing = none ∨ task.doing = some .planned) : Sound .serving task := by
  refine ⟨by rw [hcanonical]; exact List.nodup_nil, ?_, fun hfailed => absurd hfailed hqueued,
    nofun, nofun, nofun⟩
  rcases hdoing with hdoing | hdoing
  · rw [hdoing]
    exact fun hne => absurd hcanonical hne
  · rw [hdoing]
    exact hcanonical

theorem kept_step {s t : State} {event : Event} (h : Kept s) (hcareful : Careful s event)
    (hs : step s event = some t) : Kept t := by
  have hmap {process : Process} {f : Task → Task}
      (hf : ∀ task ∈ s.tasks, Sound process (f task)) :
      ∀ task ∈ s.tasks.map f, Sound process task := by
    intro task htask
    obtain ⟨old, hold, rfl⟩ := List.mem_map.mp htask
    exact hf old hold
  cases event with
  | submitted id =>
    simp only [step] at hs
    rw [Option.ite_none_right_eq_some] at hs
    obtain ⟨⟨hserving, -⟩, hs⟩ := hs
    obtain rfl := Option.some.inj hs
    refine ⟨fun task htask => ?_, h.resumptions⟩
    rcases List.mem_append.mp htask with htask | htask
    · exact h.tasks task htask
    · rw [List.mem_singleton.mp htask, hserving]
      exact sound_new rfl nofun (.inl rfl)
  | rollback id =>
    simp only [step] at hs
    rw [Option.ite_none_right_eq_some] at hs
    obtain ⟨⟨hserving, -⟩, hs⟩ := hs
    obtain rfl := Option.some.inj hs
    refine ⟨fun task htask => ?_, h.resumptions⟩
    rcases List.mem_append.mp htask with htask | htask
    · exact h.tasks task htask
    · rw [List.mem_singleton.mp htask, hserving]
      exact sound_new rfl nofun (.inr rfl)
  | act id act =>
    simp only [step] at hs
    rw [Option.ite_none_left_eq_some] at hs
    obtain ⟨-, hs⟩ := hs
    obtain ⟨task, hfind, hs⟩ := Option.bind_eq_some_iff.mp hs
    obtain ⟨done, hact, hs⟩ := Option.bind_eq_some_iff.mp hs
    obtain rfl := Option.some.inj hs
    have htask := List.mem_of_find?_eq_some hfind
    have hid : task.id = id := by simpa using List.find?_some hfind
    have hthrew : act = .threw → task.canonical = [] :=
      fun hthrew => hcareful hthrew task htask hid
    refine ⟨hmap fun other hother => ?_, fun resumption hmem => ?_⟩
    · split
      · exact sound_act (h.tasks task htask) hthrew hact
      · exact h.tasks other hother
    · rcases List.mem_append.mp hmem with hmem | hmem
      · exact h.resumptions resumption hmem
      · exact resumption_cleared (h.tasks task htask) hact resumption hmem
  | crashed =>
    obtain rfl := Option.some.inj hs
    exact ⟨hmap fun task htask => sound_dropped (h.tasks task htask) (hcareful task htask),
      h.resumptions⟩
  | drained =>
    simp only [step] at hs
    rw [Option.ite_none_right_eq_some] at hs
    obtain ⟨-, hs⟩ := hs
    obtain rfl := Option.some.inj hs
    refine ⟨hmap fun task htask => ?_, h.resumptions⟩
    exact sound_dropped (sound_requeue (h.tasks task htask) (.inr rfl) nofun)
      (recoverable_requeue (hcareful task htask))
  | booted =>
    simp only [step] at hs
    rw [Option.ite_none_right_eq_some] at hs
    obtain ⟨hdown, hs⟩ := hs
    obtain rfl := Option.some.inj hs
    refine ⟨hmap fun task htask => ?_, h.resumptions⟩
    have hsound := h.tasks task htask
    refine ⟨hsound.once, hsound.phase, hsound.failed, nofun, fun _ hdoing => ?_,
      fun _ => hsound.waiting (.inl hdown)⟩
    rw [hsound.down hdown] at hdoing
    cases hdoing
  | reclaimed =>
    simp only [step] at hs
    rw [Option.ite_none_right_eq_some] at hs
    obtain ⟨-, hs⟩ := hs
    obtain rfl := Option.some.inj hs
    exact ⟨hmap fun task htask => sound_requeue (h.tasks task htask) (.inl rfl) nofun,
      h.resumptions⟩
  | served =>
    simp only [step] at hs
    rw [Option.ite_none_right_eq_some] at hs
    obtain ⟨-, hs⟩ := hs
    obtain rfl := Option.some.inj hs
    refine ⟨fun task htask => ?_, h.resumptions⟩
    have hsound := h.tasks task htask
    exact ⟨hsound.once, hsound.phase, hsound.failed, nofun, nofun, nofun⟩

/-- **Crash recovery promotes only what was cleared, once**: in a run that is not stopped
where what would be resumed is not cleared or was stopped, nor between a promotion and the
end of its task. -/
theorem recovered {events : List Event} {s : State} (hcareful : Throughout step Careful {} events)
    (hs : run step {} events = some s) : Recovered s := by
  have hinit : Kept {} :=
    ⟨fun _ htask => absurd htask List.not_mem_nil, fun _ hmem => absurd hmem List.not_mem_nil⟩
  have hkept : Kept s := run_invariant (fun _ _ _ => kept_step) hinit hcareful hs
  refine ⟨hkept.resumptions, fun task htask => (hkept.tasks task htask).once, ?_⟩
  intro task htask hne hdoing
  have hphase := (hkept.tasks task htask).phase
  rw [hdoing] at hphase
  obtain ⟨hstatus, hqueued⟩ := hphase hne
  simp only [List.mem_cons, List.not_mem_nil, or_false, not_or] at hqueued
  refine ⟨?_, hqueued.1, hqueued.2.2⟩
  rw [hstatus]
  decide

/-! ## A stop at each place -/

/-- A task that is handed out and collected, up to the changeset's approval. -/
def collectedBy (id : String) (review : Bool) : List Event :=
  [.submitted id, .act id (.leased false), .act id .started, .act id (.collected ⟨"c", review⟩)]

/-- Recovery resumes the task, and settles what it promoted. -/
def resumedBy (id : String) : List Event :=
  [.booted, .act id (.resumed .integrated), .act id .recorded, .act id .ended, .act id .settled,
    .act id .closed, .served]

/-- A changeset that was approved before a crash is promoted after it. -/
theorem recovered_resumed :
    ∃ s, run step {} (collectedBy "task" true ++ [.act "task" .granted, .crashed] ++
        resumedBy "task") = some s ∧
      s.resumptions = [⟨"c", false, true⟩] ∧ Recovered s := by
  have hresumed : (run step {} (collectedBy "task" true ++ [.act "task" .granted, .crashed] ++
      resumedBy "task")).map State.resumptions = some [⟨"c", false, true⟩] := by
    decide
  obtain ⟨s, hs, hresumed⟩ := Option.map_eq_some_iff.mp hresumed
  exact ⟨s, hs, hresumed, recovered (by decide) hs⟩

theorem not_recovered {s : State} {changeSetId : String} {stopped cleared : Bool}
    (hs : s.resumptions = [⟨changeSetId, stopped, cleared⟩])
    (hwrong : stopped = true ∨ cleared = false) : ¬Recovered s := by
  intro h
  obtain ⟨hstopped, hcleared⟩ := h.cleared _ (hs ▸ List.mem_singleton_self _)
  rcases hwrong with rfl | rfl
  · cases hstopped
  · cases hcleared

/-- **A rollback nobody confirmed is promoted when the process stops while it waits; so is
the work of a task somebody stopped; and a task whose changeset was promoted before the
stop is recorded as failed, and queued again.** -/
theorem recovered_uncleared :
    (∃ s, run step {} ([.rollback "r", .act "r" .started, .act "r" (.collected ⟨"c", true⟩),
        .crashed] ++ resumedBy "r") = some s ∧ s.resumptions = [⟨"c", false, false⟩] ∧
      ¬Recovered s) ∧
    (∃ s, run step {} (collectedBy "task" false ++ [.act "task" (.stopped false), .crashed] ++
        resumedBy "task") = some s ∧ s.resumptions = [⟨"c", true, true⟩] ∧ ¬Recovered s) ∧
    (∃ s, run step {} (collectedBy "task" false ++ [.act "task" .granted,
        .act "task" (.integrate .integrated), .crashed, .booted,
        .act "task" (.resumed .policyFailed), .act "task" .recorded, .act "task" .closed,
        .act "task" .requeued]) = some s ∧
      s.tasks.map (fun task => (task.canonical, task.status, task.queued)) =
        [(["c"], .failed, some .submitted)]) := by
  have hrun {α : Type} {o : Option State} {f : State → α} {a : α} (h : o.map f = some a) :
      ∃ s, o = some s ∧ f s = a := Option.map_eq_some_iff.mp h
  refine ⟨?_, ?_, hrun (by decide)⟩
  · obtain ⟨s, hs, hresumed⟩ := hrun (f := State.resumptions)
      (o := run step {} ([.rollback "r", .act "r" .started, .act "r" (.collected ⟨"c", true⟩),
        .crashed] ++ resumedBy "r")) (a := [⟨"c", false, false⟩]) (by decide)
    exact ⟨s, hs, hresumed, not_recovered hresumed (.inr rfl)⟩
  · obtain ⟨s, hs, hresumed⟩ := hrun (f := State.resumptions)
      (o := run step {} (collectedBy "task" false ++ [.act "task" (.stopped false), .crashed] ++
        resumedBy "task")) (a := [⟨"c", true, true⟩]) (by decide)
    exact ⟨s, hs, hresumed, not_recovered hresumed (.inl rfl)⟩

end AgenticGit.Cli.CrashRecovery
