import AgenticGit.Lib.Runs

/- What a run of the coordinator (`Coordinator.execute`, `coordinator.ts`) holds
   for its tasks, agent sessions, workspaces and ownership leases, and which of its steps
   let go of it: `planTasks`, the stop checkpoint, `prepareTask`, `integrateTask`,
   `cancelFailedDependents` and the handler around the loop, with `cleanupTask` and
   `parkTask` that they share. Every call of the recorder, the store, Git, an adapter or
   the plan authority may throw.

   What is proved:
     1. `kept_step` — what a step whose calls are in order leaves in each place.
     2. `run_leaves_nothing` — a run whose steps are in order has, when it is over, closed
        every session, ended every workspace in one way, and released every lease.
     3. `wave_left_behind` — a task whose ending cannot be recorded ends the run, and the
        other task of its wave is left with its session, its workspace and its leases.

   Correspondence (TypeScript ↔ Lean):
     where a task's resources are referred to: the promise of `planTasks`, `pending`,
       the promise of `prepareTask`, `prepared`, `taskResults` ↔ `Place`
     an await that throws where only a `catch` sees it      ↔ nothing: it changes nothing
     an await whose exception leaves `execute`'s loop        ↔ `recorded`, `noted` = false
     `cleanupTask`'s and `parkTask`'s calls that succeed     ↔ `Calls`
   A call of `cancel` or `destroy` that throws has not cancelled or destroyed anything. -/
namespace AgenticGit.Coordinator.Teardown
open AgenticGit.Runs

/-! ## What a task holds -/

inductive Session where
  | unopened
  | opened
  | cancelled
  /-- In the conversation registry. -/
  | handed
  deriving DecidableEq, Repr

structure Workspace where
  destroyed : Bool := false
  /-- By the pool of warm workspaces. -/
  retained : Bool := false
  /-- To the conversation registry. -/
  handed : Bool := false
  deriving DecidableEq, Repr

def Workspace.EndedOnce (workspace : Workspace) : Prop :=
  workspace = { destroyed := true } ∨ workspace = { retained := true } ∨
    workspace = { handed := true }

structure Held where
  session : Session
  /-- The workspace the task works in, and those it had before. -/
  workspaces : List Workspace
  leases : Bool
  deriving DecidableEq, Repr

inductive Ending where
  | integrated
  | paused
  | other
  deriving DecidableEq, Repr

inductive Place where
  | planning
  | pending
  | working
  /-- The execution threw when the workspace was gone. -/
  | failing
  /-- The execution cleaned up after itself. -/
  | cleaned
  | prepared
  | ended (ending : Ending)
  deriving DecidableEq, Repr

structure Task where
  conversation : Bool
  /-- The turn continues an open conversation, in its workspace. -/
  resumed : Bool
  held : Held
  place : Place
  /-- The task was started with a wave. -/
  started : Bool
  deriving DecidableEq, Repr

/-- Which of the calls of a teardown succeed. -/
structure Calls where
  cancel : Bool
  destroy : Bool
  /-- The pool takes the workspace. -/
  pooled : Bool
  deriving DecidableEq, Repr

/-! ## Letting go -/

def cancelSession (calls : Calls) (held : Held) : Held :=
  if calls.cancel then { held with session := .cancelled } else held

def destroyWorkspace (calls : Calls) (held : Held) : Held :=
  if calls.destroy then
    { held with workspaces := held.workspaces.modifyHead fun workspace =>
        { workspace with destroyed := true } }
  else held

def retainWorkspace (held : Held) : Held :=
  { held with workspaces := held.workspaces.modifyHead fun workspace =>
      { workspace with retained := true } }

def handWorkspace (held : Held) : Held :=
  { held with workspaces := held.workspaces.modifyHead fun workspace =>
      { workspace with handed := true } }

def releaseTurnLeases (held : Held) : Held := { held with leases := false }

/-- Only a task that landed offers its directory back. -/
def cleanupTask (calls : Calls) (retain : Bool) (held : Held) : Held :=
  let held := cancelSession calls held
  releaseTurnLeases (if retain && calls.pooled then retainWorkspace held
    else destroyWorkspace calls held)

/-- A paused turn keeps the workspace of a conversation it continues. -/
def parkTask (calls : Calls) (task : Task) : Held :=
  if !task.conversation || !task.resumed then cleanupTask calls false task.held
  else handWorkspace (releaseTurnLeases (cancelSession calls task.held))

def stopTask (calls : Calls) (paused : Bool) (task : Task) : Task :=
  if paused then { task with held := parkTask calls task, place := .ended .paused }
  else { task with held := cleanupTask calls false task.held, place := .ended .other }

/-- `session === undefined` where planning failed before it opened one. -/
def planningFails (opened : Bool) (calls : Calls) (task : Task) : Task :=
  let held := if opened then cancelSession calls { task.held with session := .opened }
    else task.held
  { task with
    held := if task.resumed then destroyWorkspace calls held else held
    place := .ended .other }

/-- Of a task that waits, when the run collapses or a producer it needs did not integrate. -/
def abandon (calls : Calls) (task : Task) : Task :=
  let held := cancelSession calls task.held
  { task with
    held := if task.resumed then destroyWorkspace calls held else held
    place := .ended .other }

/-- What catching the workspace of a conversation up with canonical comes to. -/
inductive Advance where
  | inPlace
  /-- The manager cannot: it is destroyed, and another is created. -/
  | replaced
  /-- It is destroyed, and no other could be created. -/
  | lost
  deriving DecidableEq, Repr

def advanceWorkspace (advance : Advance) (task : Task) : Task :=
  let gone := (destroyWorkspace ⟨true, true, false⟩ task.held).workspaces
  match advance with
  | .inPlace => task
  | .replaced => { task with held := { task.held with workspaces := {} :: gone } }
  | .lost => { task with held := { task.held with workspaces := gone }, place := .failing }

/-- A turn that landed keeps its conversation open: session and workspace. -/
def integrateTask (calls : Calls) (integrated : Bool) (task : Task) : Task :=
  if task.conversation && integrated then
    { task with
      held := handWorkspace { releaseTurnLeases task.held with session := .handed }
      place := .ended .integrated }
  else
    { task with
      held := cleanupTask calls integrated task.held
      place := .ended (if integrated then .integrated else .other) }

/-! ## The run -/

inductive Phase where
  | planning
  | loop
  | wave
  /-- The wave's tasks are integrated, and what depends on them is cancelled. -/
  | settling
  /-- An exception left the loop. -/
  | collapsing
  | over
  deriving DecidableEq, Repr

structure State where
  tasks : List Task
  phase : Phase
  deriving DecidableEq, Repr

inductive Integration where
  | settled (integrated : Bool)
  /-- It failed, and so did recording that. -/
  | unrecorded
  deriving DecidableEq, Repr

inductive Event where
  | plans (i : Nat)
  | planningFails (i : Nat) (opened : Bool) (calls : Calls)
  | planned
  /-- A task that was stopped is found at the checkpoint. -/
  | stopped (i : Nat) (paused : Bool) (calls : Calls) (recorded : Bool)
  | waved (selected : List Nat)
  /-- One of the loop's own awaits, before a wave starts. -/
  | throws
  | acquires (i : Nat)
  | creates (i : Nat)
  | advances (i : Nat) (advance : Advance)
  /-- The execution hands the task back to the queue. -/
  | handsBack (i : Nat) (calls : Calls)
  | returns (i : Nat)
  | prepares (i : Nat)
  /-- The execution throws; a task that was stopped meanwhile ends as its stop says. -/
  | fails (i : Nat) (paused : Bool) (calls : Calls) (recorded : Bool)
  | gathered
  | integrates (i : Nat) (outcome : Integration) (calls : Calls) (noted : Bool)
  | drops (i : Nat) (calls : Calls) (recorded : Bool)
  | loops
  | collapses (calls : Nat → Calls)
  | finishes

def Place.aside : Place → Bool
  | .pending | .ended _ => true
  | _ => false

def Place.running : Place → Bool
  | .working | .failing | .cleaned => true
  | _ => false

def State.onTask (s : State) (i : Nat) (may : Task → Bool) (move : Task → Task)
    (phase : Phase) : Option State := do
  let task ← s.tasks[i]?
  if may task then some { tasks := s.tasks.set i (move task), phase } else none

def thenPhase (recorded : Bool) (phase : Phase) : Phase := if recorded then phase else .collapsing

/-- Whether the executions of a wave go on: also while the run collapses. -/
def Phase.executing : Phase → Bool
  | .wave | .collapsing => true
  | _ => false

def step (s : State) : Event → Option State
  | .plans i =>
    if s.phase ≠ .planning then none
    else s.onTask i (fun task => task.place = .planning)
      (fun task => { task with held := { task.held with session := .opened }, place := .pending })
      .planning
  | .planningFails i opened calls =>
    if s.phase ≠ .planning then none
    else s.onTask i (fun task => task.place = .planning) (planningFails opened calls) .planning
  | .planned =>
    if s.phase ≠ .planning ∨ s.tasks.any (fun task => task.place = .planning) then none
    else some { s with phase := .loop }
  | .stopped i paused calls recorded =>
    if s.phase ≠ .loop then none
    else s.onTask i (fun task => task.place = .pending) (stopTask calls paused)
      (thenPhase recorded .loop)
  | .waved selected =>
    if s.phase ≠ .loop ∨ selected.length = 0 ∨
        selected.any (fun i => (s.tasks[i]?).all fun task => task.place ≠ .pending) then none
    else some {
      tasks := s.tasks.mapIdx fun i task =>
        if i ∈ selected then { task with place := .working, started := true } else task
      phase := .wave }
  | .throws => if s.phase ≠ .loop then none else some { s with phase := .collapsing }
  | .acquires i =>
    -- the handlers of a task's events acquire too, and outlive what they were handling
    if s.phase = .over then none
    else s.onTask i (fun task => task.started)
      (fun task => { task with held := { task.held with leases := true } }) s.phase
  | .creates i =>
    if !s.phase.executing then none
    else s.onTask i
      (fun task => task.place = .working && !task.resumed && task.held.workspaces.length = 0)
      (fun task => { task with held := { task.held with workspaces := [{}] } }) s.phase
  | .advances i advance =>
    if !s.phase.executing then none
    else s.onTask i (fun task => task.place = .working && task.resumed)
      (advanceWorkspace advance) s.phase
  | .handsBack i calls =>
    if !s.phase.executing then none
    else s.onTask i (fun task => task.place = .working && 0 < task.held.workspaces.length)
      (fun task => { task with held := cleanupTask calls false task.held, place := .cleaned })
      s.phase
  | .returns i =>
    if !s.phase.executing then none
    else s.onTask i (fun task => task.place = .cleaned)
      (fun task => { task with place := .ended .other }) s.phase
  | .prepares i =>
    if !s.phase.executing then none
    else s.onTask i (fun task => task.place = .working && 0 < task.held.workspaces.length)
      (fun task => { task with place := .prepared }) s.phase
  | .fails i paused calls recorded =>
    if !s.phase.executing then none
    else s.onTask i (fun task => task.place.running) (stopTask calls paused)
      (thenPhase recorded s.phase)
  | .gathered =>
    if s.phase ≠ .wave ∨ s.tasks.any (fun task => task.place.running) then none
    else some { s with phase := .settling }
  | .integrates i outcome calls noted =>
    if s.phase ≠ .settling ∨ (s.tasks.take i).any (fun task => task.place = .prepared) then none
    else
      match outcome with
      | .unrecorded => s.onTask i (fun task => task.place = .prepared) id .collapsing
      | .settled integrated =>
        s.onTask i (fun task => task.place = .prepared) (integrateTask calls integrated)
          (thenPhase noted .settling)
  | .drops i calls recorded =>
    if s.phase ≠ .settling ∨ s.tasks.any (fun task => task.place = .prepared) then none
    else s.onTask i (fun task => task.place = .pending) (abandon calls)
      (thenPhase recorded .settling)
  | .loops =>
    if s.phase ≠ .settling ∨ s.tasks.any (fun task => task.place = .prepared) then none
    else some { s with phase := .loop }
  | .collapses calls =>
    if s.phase ≠ .collapsing then none
    else some {
      tasks := s.tasks.mapIdx fun i task =>
        if task.place = .pending then abandon (calls i) task else task
      phase := .over }
  | .finishes =>
    if s.phase ≠ .loop ∨ s.tasks.any (fun task => task.place = .pending) then none
    else some { s with phase := .over }

/-! ## Steps in order -/

def Calls.inOrder (calls : Calls) : Bool := calls.cancel && calls.destroy

def othersAside (s : State) (i : Nat) : Bool :=
  (s.tasks.eraseIdx i).all fun task => task.place.aside

/-- The calls of a teardown succeed; nothing is acquired for a task that was torn down; a
workspace that is gone is not put back into a conversation; a failed integration is recorded;
and an ending is, while another task of the wave holds something. -/
def inOrder (s : State) : Event → Bool
  | .planningFails _ _ calls => calls.inOrder
  | .stopped _ _ calls _ => calls.inOrder
  | .acquires i => (s.tasks[i]?).all fun task => task.place = .working || task.place = .prepared
  | .handsBack _ calls => calls.inOrder
  | .fails i paused calls recorded =>
    calls.inOrder && (recorded || othersAside s i) &&
      (!paused || (s.tasks[i]?).all fun task =>
        !task.conversation || !task.resumed ||
          task.held.workspaces.head?.all fun workspace => !workspace.destroyed)
  | .integrates i outcome calls noted =>
    calls.inOrder && outcome ≠ .unrecorded && (noted || othersAside s i)
  | .drops _ calls _ => calls.inOrder
  | .collapses calls => (List.range s.tasks.length).all fun i => (calls i).inOrder
  | _ => true

/-- Nothing is left behind for the task. -/
structure Clean (task : Task) : Prop where
  session : task.held.session ≠ .opened
  handedSession : task.held.session = .handed → task.place = .ended .integrated
  workspaces : ∀ workspace ∈ task.held.workspaces, workspace.EndedOnce
  handedWorkspace : ∀ workspace ∈ task.held.workspaces, workspace.handed = true →
    task.place = .ended .integrated ∨ task.place = .ended .paused
  leases : task.held.leases = false

/-! ## What is held in each place -/

def gone : Workspace := { destroyed := true }

/-- The task works in its workspace, when it has one; the ones before it are gone. -/
structure InUse (workspaces : List Workspace) : Prop where
  head : ∀ workspace ∈ workspaces.head?, workspace = {}
  tail : ∀ workspace ∈ workspaces.tail, workspace = gone

def Holds (task : Task) : Prop :=
  match task.place with
  | .planning => task.held = ⟨.unopened, if task.resumed then [{}] else [], false⟩
  | .pending => task.held = ⟨.opened, if task.resumed then [{}] else [], false⟩
  | .working | .prepared => task.held.session = .opened ∧ InUse task.held.workspaces
  | .failing => task.held.session = .opened ∧ ∀ workspace ∈ task.held.workspaces, workspace = gone
  | .cleaned => task.held.session = .cancelled ∧ task.held.leases = false ∧
      ∀ workspace ∈ task.held.workspaces, workspace = gone
  | .ended _ => Clean task

def Phase.admits : Phase → Place → Bool
  | .planning, place => place = .planning || place.aside
  | .loop, place => place.aside
  | .wave, place => place ≠ .planning
  | .settling, place => place.aside || place = .prepared
  | .collapsing, place => place.aside
  | .over, place => place.aside && place ≠ .pending

/-- Every task is in a place where it may be, and holds what it does there. -/
def Kept (s : State) : Prop :=
  ∀ task ∈ s.tasks, s.phase.admits task.place = true ∧ Holds task

/-! ## One task -/

section
variable {calls : Calls} {held : Held} {task : Task}

theorem modifyHead_gone {workspaces : List Workspace}
    (hhead : ∀ workspace ∈ workspaces.head?, workspace = {} ∨ workspace = gone)
    (htail : ∀ workspace ∈ workspaces.tail, workspace = gone) :
    ∀ workspace ∈ workspaces.modifyHead fun workspace => { workspace with destroyed := true },
      workspace = gone := by
  cases workspaces with
  | nil =>
    intro workspace hin
    cases hin
  | cons head tail =>
    intro workspace hin
    rw [List.modifyHead_cons] at hin
    rcases List.mem_cons.mp hin with rfl | hin
    · rcases hhead head rfl with rfl | rfl
      · rfl
      · rfl
    · exact htail workspace hin

/-- What a teardown starts from: nothing but the workspace in use is still there. -/
structure Owned (workspaces : List Workspace) : Prop where
  head : ∀ workspace ∈ workspaces.head?, workspace = {} ∨ workspace = gone
  tail : ∀ workspace ∈ workspaces.tail, workspace = gone

theorem InUse.owned {workspaces : List Workspace} (h : InUse workspaces) : Owned workspaces :=
  ⟨fun workspace hin => .inl (h.head workspace hin), h.tail⟩

theorem owned_of_gone {workspaces : List Workspace}
    (h : ∀ workspace ∈ workspaces, workspace = gone) : Owned workspaces :=
  ⟨fun workspace hin => .inr (h workspace (List.mem_of_mem_head? hin)),
    fun workspace hin => h workspace (List.mem_of_mem_tail hin)⟩

theorem inUse_start (resumed : Bool) : InUse (if resumed then [{}] else []) := by
  cases resumed with
  | false =>
    refine ⟨fun _ hin => ?_, fun _ hin => ?_⟩
    · cases hin
    · cases hin
  | true =>
    refine ⟨fun _ hin => ?_, fun _ hin => ?_⟩
    · cases hin
      rfl
    · cases hin

theorem cleanupTask_gone (hcalls : calls.inOrder = true) (howned : Owned held.workspaces) :
    (cleanupTask calls false held).session = .cancelled ∧
      (cleanupTask calls false held).leases = false ∧
      ∀ workspace ∈ (cleanupTask calls false held).workspaces, workspace = gone := by
  obtain ⟨hcancel, hdestroy⟩ := Bool.and_eq_true_iff.mp hcalls
  unfold cleanupTask cancelSession destroyWorkspace
  rw [if_pos hcancel]
  simp only [Bool.false_and, Bool.false_eq_true, if_false, if_pos hdestroy]
  exact ⟨rfl, rfl, modifyHead_gone howned.head howned.tail⟩

theorem clean_of_gone (hsession : task.held.session = .cancelled ∨ task.held.session = .unopened)
    (hleases : task.held.leases = false)
    (hgone : ∀ workspace ∈ task.held.workspaces, workspace = gone) : Clean task := by
  refine ⟨?_, ?_, fun workspace hin => .inl (hgone workspace hin), ?_, hleases⟩
  · rcases hsession with h | h
    · rw [h]
      decide
    · rw [h]
      decide
  · rcases hsession with h | h
    · rw [h]
      exact fun habsurd => by cases habsurd
    · rw [h]
      exact fun habsurd => by cases habsurd
  · intro workspace hin hhanded
    rw [hgone workspace hin] at hhanded
    cases hhanded

theorem mem_modifyHead {workspaces : List Workspace} {call : Workspace → Workspace}
    {workspace : Workspace} (hinUse : InUse workspaces) (h : workspace ∈ workspaces.modifyHead call) :
    workspace = call {} ∨ workspace = gone := by
  cases workspaces with
  | nil => cases h
  | cons head tail =>
    rw [List.modifyHead_cons] at h
    rcases List.mem_cons.mp h with rfl | h
    · rw [hinUse.head head rfl]
      exact .inl rfl
    · exact .inr (hinUse.tail workspace h)

theorem handWorkspace_ended (hinUse : InUse held.workspaces) :
    ∀ workspace ∈ (handWorkspace held).workspaces, workspace.EndedOnce := by
  intro workspace hin
  rcases mem_modifyHead hinUse hin with rfl | rfl
  · exact .inr (.inr rfl)
  · exact .inl rfl

theorem stopTask_clean (paused : Bool) (hcalls : calls.inOrder = true)
    (howned : Owned task.held.workspaces)
    (hparked : paused = true → task.conversation = true → task.resumed = true →
      InUse task.held.workspaces) : Clean (stopTask calls paused task) := by
  have hcleaned := cleanupTask_gone hcalls howned
  cases paused with
  | false => exact clean_of_gone (.inl hcleaned.1) hcleaned.2.1 hcleaned.2.2
  | true =>
    unfold stopTask parkTask
    rw [if_pos rfl]
    by_cases hopen : (!task.conversation || !task.resumed) = true
    · rw [if_pos hopen]
      exact clean_of_gone (.inl hcleaned.1) hcleaned.2.1 hcleaned.2.2
    · rw [if_neg hopen]
      simp only [Bool.not_eq_true, Bool.or_eq_false_iff, Bool.not_eq_false'] at hopen
      obtain ⟨hcancel, -⟩ := Bool.and_eq_true_iff.mp hcalls
      have hsession : (cancelSession calls task.held).session = .cancelled := by
        unfold cancelSession
        rw [if_pos hcancel]
      have hworkspaces : (cancelSession calls task.held).workspaces = task.held.workspaces := by
        unfold cancelSession
        rw [if_pos hcancel]
      have hended := @handWorkspace_ended (releaseTurnLeases (cancelSession calls task.held))
        (by rw [show (releaseTurnLeases _).workspaces = _ from hworkspaces]
            exact hparked rfl hopen.1 hopen.2)
      refine ⟨?_, fun hhanded => ?_, hended, fun _ _ _ => .inr rfl, rfl⟩
      · exact fun hopened => by cases hsession.symm.trans hopened
      · cases hsession.symm.trans hhanded

theorem abandon_clean (hcalls : calls.inOrder = true)
    (hheld : task.held = ⟨.opened, if task.resumed then [{}] else [], false⟩) :
    Clean (abandon calls task) := by
  obtain ⟨hcancel, hdestroy⟩ := Bool.and_eq_true_iff.mp hcalls
  refine clean_of_gone (.inl ?_) ?_ ?_
  all_goals
    unfold abandon cancelSession destroyWorkspace
    simp only [if_pos hcancel, if_pos hdestroy, hheld]
    cases task.resumed
  · rfl
  · rfl
  · rfl
  · rfl
  · intro workspace hin
    cases hin
  · intro workspace hin
    exact List.mem_singleton.mp hin

theorem planningFails_clean (opened : Bool) (hcalls : calls.inOrder = true)
    (hheld : task.held = ⟨.unopened, if task.resumed then [{}] else [], false⟩) :
    Clean (planningFails opened calls task) := by
  obtain ⟨hcancel, hdestroy⟩ := Bool.and_eq_true_iff.mp hcalls
  have hgone : ∀ workspace ∈ [gone], workspace = gone := fun _ hin => List.mem_singleton.mp hin
  refine clean_of_gone ?_ ?_ ?_
  all_goals
    unfold planningFails cancelSession destroyWorkspace
    simp only [if_pos hcancel, if_pos hdestroy, hheld]
    cases task.resumed
    all_goals cases opened
  all_goals first
    | exact .inl rfl
    | exact .inr rfl
    | rfl
    | exact hgone
    | exact fun _ hin => by cases hin

theorem integrateTask_clean (integrated : Bool) (hcalls : calls.inOrder = true)
    (hinUse : InUse task.held.workspaces) : Clean (integrateTask calls integrated task) := by
  unfold integrateTask
  split
  · have hended := @handWorkspace_ended { releaseTurnLeases task.held with session := .handed }
      hinUse
    refine ⟨fun hopened => ?_, fun _ => rfl, hended, fun _ _ _ => .inl rfl, rfl⟩
    cases hopened
  · by_cases hretained : (integrated && calls.pooled) = true
    · -- the pool takes the directory
      obtain ⟨hcancel, -⟩ := Bool.and_eq_true_iff.mp hcalls
      have hheld : cleanupTask calls integrated task.held =
          releaseTurnLeases (retainWorkspace { task.held with session := .cancelled }) := by
        unfold cleanupTask cancelSession
        rw [if_pos hcancel]
        dsimp only
        rw [if_pos hretained]
      rw [hheld]
      refine ⟨fun hopened => ?_, fun hhanded => ?_, fun workspace hin => ?_,
        fun workspace hin hhanded => ?_, rfl⟩
      · cases hopened
      · cases hhanded
      · rcases mem_modifyHead hinUse hin with rfl | rfl
        · exact .inr (.inl rfl)
        · exact .inl rfl
      · rcases mem_modifyHead hinUse hin with rfl | rfl
        · cases hhanded
        · cases hhanded
    · have hheld : cleanupTask calls integrated task.held = cleanupTask calls false task.held := by
        unfold cleanupTask
        dsimp only
        rw [if_neg hretained]
        rfl
      obtain ⟨hsession, hleases, hgone⟩ := cleanupTask_gone hcalls hinUse.owned
      rw [hheld]
      exact clean_of_gone (.inl hsession) hleases hgone

end

/-! ## Steps -/

section
variable {s t : State} {e : Event} {i : Nat} {may : Task → Bool} {move : Task → Task}
  {phase : Phase}

theorem onTask_some (h : s.onTask i may move phase = some t) :
    ∃ task, s.tasks[i]? = some task ∧ may task = true ∧
      t = { tasks := s.tasks.set i (move task), phase } := by
  unfold State.onTask at h
  obtain ⟨task, htask, h⟩ := Option.bind_eq_some_iff.mp h
  rw [Option.ite_none_right_eq_some] at h
  exact ⟨task, htask, h.1, (Option.some.inj h.2).symm⟩

theorem mem_set {α : Type} {xs : List α} {i : Nat} {x y : α} (h : y ∈ xs.set i x) :
    y = x ∨ y ∈ xs.eraseIdx i := by
  obtain ⟨j, hj⟩ := List.mem_iff_getElem?.mp h
  rw [List.getElem?_set] at hj
  split at hj
  · split at hj
    · exact .inl (Option.some.inj hj).symm
    · cases hj
  · rename_i hne
    exact .inr (List.mem_eraseIdx_iff_getElem?.mpr ⟨j, fun heq => hne heq.symm, hj⟩)

theorem kept_onTask (hkept : Kept s) (h : s.onTask i may move phase = some t)
    (hothers : ∀ task ∈ s.tasks.eraseIdx i, s.phase.admits task.place = true →
      phase.admits task.place = true)
    (hmoved : ∀ task, s.tasks[i]? = some task → may task = true →
      s.phase.admits task.place = true → Holds task →
        phase.admits (move task).place = true ∧ Holds (move task)) : Kept t := by
  obtain ⟨task, htask, hmay, rfl⟩ := onTask_some h
  intro other hother
  rcases mem_set hother with rfl | hother
  · obtain ⟨hadmits, hholds⟩ := hkept task (List.mem_of_getElem? htask)
    exact hmoved task htask hmay hadmits hholds
  · obtain ⟨hadmits, hholds⟩ := hkept other (List.eraseIdx_subset hother)
    exact ⟨hothers other hother hadmits, hholds⟩

theorem admits_ended (phase : Phase) (ending : Ending) : phase.admits (.ended ending) = true := by
  cases phase with
  | _ => rfl

theorem stopTask_place (calls : Calls) (paused : Bool) (task : Task) :
    ∃ ending, (stopTask calls paused task).place = .ended ending := by
  unfold stopTask
  split
  · exact ⟨_, rfl⟩
  · exact ⟨_, rfl⟩

theorem ended_kept {task : Task} (hplace : ∃ ending, task.place = .ended ending)
    (hclean : Clean task) : phase.admits task.place = true ∧ Holds task := by
  obtain ⟨ending, hplace⟩ := hplace
  unfold Holds
  rw [hplace]
  exact ⟨admits_ended phase ending, hclean⟩

theorem wave_of_running {place : Place} (hexecuting : phase.executing = true)
    (hadmits : phase.admits place = true) (hrunning : place.running = true) : phase = .wave := by
  cases phase with
  | wave => rfl
  | collapsing =>
    cases place with
    | working | failing | cleaned => cases hadmits
    | planning | pending | prepared | ended => cases hrunning
  | _ => cases hexecuting

theorem owned_of_running {task : Task} (hrunning : task.place.running = true) (h : Holds task) :
    Owned task.held.workspaces := by
  unfold Holds at h
  cases hplace : task.place with
  | working =>
    rw [hplace] at h
    exact h.2.owned
  | failing =>
    rw [hplace] at h
    exact owned_of_gone h.2
  | cleaned =>
    rw [hplace] at h
    exact owned_of_gone h.2.2
  | planning | pending | prepared | ended =>
    rw [hplace] at hrunning
    cases hrunning

theorem aside_of_others (hothers : othersAside s i = true) :
    ∀ task ∈ s.tasks.eraseIdx i, task.place.aside = true :=
  List.all_eq_true.mp hothers

theorem Owned.inUse {workspaces : List Workspace} (h : Owned workspaces)
    (hthere : (workspaces.head?.all fun workspace => !workspace.destroyed) = true) :
    InUse workspaces := by
  refine ⟨fun workspace hin => ?_, h.tail⟩
  rcases h.head workspace hin with rfl | rfl
  · rfl
  · rw [hin] at hthere
    cases hthere

theorem kept_fails {paused recorded : Bool} {calls : Calls} (hkept : Kept s)
    (horder : inOrder s (.fails i paused calls recorded) = true)
    (h : step s (.fails i paused calls recorded) = some t) : Kept t := by
  unfold step at h
  rw [Option.ite_none_left_eq_some] at h
  obtain ⟨hexecuting, h⟩ := h
  unfold inOrder at horder
  simp only [Bool.and_eq_true, Bool.or_eq_true] at horder
  obtain ⟨⟨hcalls, hrecorded⟩, hparks⟩ := horder
  refine kept_onTask hkept h (fun task htask hadmits => ?_) fun task htask hmay hadmits hholds => ?_
  · cases recorded with
    | true => exact hadmits
    | false => exact aside_of_others (hrecorded.resolve_left Bool.false_ne_true) task htask
  · have howned := owned_of_running hmay hholds
    refine ended_kept (stopTask_place calls paused task)
      (stopTask_clean paused hcalls howned fun hpaused hopen hresumed => howned.inUse ?_)
    rw [hpaused, htask] at hparks
    have hthere := hparks.resolve_left (by decide)
    rw [Option.all_some, hopen, hresumed] at hthere
    exact hthere

theorem kept_phase (hkept : Kept s)
    (hadmits : ∀ task ∈ s.tasks, s.phase.admits task.place = true →
      phase.admits task.place = true) : Kept { s with phase } := by
  intro task htask
  obtain ⟨hadmitted, hholds⟩ := hkept task htask
  exact ⟨hadmits task htask hadmitted, hholds⟩

theorem none_of_not_any {p : Task → Bool} (h : ¬s.tasks.any p = true) {task : Task}
    (htask : task ∈ s.tasks) : p task = false :=
  eq_false_of_ne_true fun hp => h (List.any_eq_true.mpr ⟨task, htask, hp⟩)

theorem kept_executing {p : Task → Bool} (hkept : Kept s) (hexecuting : s.phase.executing = true)
    (h : s.onTask i p move s.phase = some t) (hrunning : ∀ task, p task = true →
      task.place.running = true) (hmoved : ∀ task, s.tasks[i]? = some task → p task = true →
        Holds task → (move task).place ≠ .planning ∧ Holds (move task)) : Kept t := by
  refine kept_onTask hkept h (fun _ _ hadmits => hadmits) fun task htask hmay hadmits hholds => ?_
  obtain ⟨hplace, hholds⟩ := hmoved task htask hmay hholds
  refine ⟨?_, hholds⟩
  rw [wave_of_running hexecuting hadmits (hrunning task hmay)]
  exact decide_eq_true hplace

/-- **What a step that is in order leaves in each place.** -/
theorem kept_step (hkept : Kept s) (horder : inOrder s e = true) (h : step s e = some t) :
    Kept t := by
  cases e with
  | plans i =>
    unfold step at h
    rw [Option.ite_none_left_eq_some, not_not] at h
    obtain ⟨hphase, h⟩ := h
    refine kept_onTask hkept h (fun _ _ hadmits => hphase ▸ hadmits) fun task _ hmay _ hholds => ?_
    have hplace := of_decide_eq_true hmay
    unfold Holds at hholds
    rw [hplace] at hholds
    refine ⟨rfl, ?_⟩
    unfold Holds
    dsimp only
    rw [hholds]
  | planningFails i opened calls =>
    unfold step at h
    rw [Option.ite_none_left_eq_some, not_not] at h
    obtain ⟨hphase, h⟩ := h
    refine kept_onTask hkept h (fun _ _ hadmits => hphase ▸ hadmits) fun task _ hmay _ hholds => ?_
    have hplace := of_decide_eq_true hmay
    unfold Holds at hholds
    rw [hplace] at hholds
    exact ended_kept ⟨_, rfl⟩ (planningFails_clean opened horder hholds)
  | planned =>
    unfold step at h
    rw [Option.ite_none_left_eq_some, not_or, not_not] at h
    obtain ⟨⟨hphase, hplanned⟩, h⟩ := h
    obtain rfl := Option.some.inj h
    refine kept_phase hkept fun task htask hadmits => ?_
    rw [hphase] at hadmits
    have hnone := none_of_not_any hplanned htask
    exact (Bool.or_eq_true_iff.mp hadmits).resolve_left (ne_true_of_eq_false hnone)
  | stopped i paused calls recorded =>
    unfold step at h
    rw [Option.ite_none_left_eq_some, not_not] at h
    obtain ⟨hphase, h⟩ := h
    refine kept_onTask hkept h (fun task _ hadmits => ?_) fun task _ hmay _ hholds => ?_
    · rw [hphase] at hadmits
      cases recorded with
      | true => exact hadmits
      | false => exact hadmits
    · unfold Holds at hholds
      rw [of_decide_eq_true hmay] at hholds
      have hinUse : InUse task.held.workspaces := hholds ▸ inUse_start task.resumed
      exact ended_kept (stopTask_place calls paused task)
        (stopTask_clean paused horder hinUse.owned fun _ _ _ => hinUse)
  | waved selected =>
    unfold step at h
    rw [Option.ite_none_left_eq_some, not_or, not_or, not_not] at h
    obtain ⟨⟨hphase, -, hpending⟩, h⟩ := h
    obtain rfl := Option.some.inj h
    intro task htask
    obtain ⟨j, hj, rfl⟩ := List.mem_mapIdx.mp htask
    obtain ⟨hadmits, hholds⟩ := hkept s.tasks[j] (List.getElem_mem hj)
    split
    · rename_i hselected
      refine ⟨rfl, ?_⟩
      have hplace : s.tasks[j].place = .pending := by
        by_contra hne
        refine hpending (List.any_eq_true.mpr ⟨j, hselected, ?_⟩)
        rw [List.getElem?_eq_getElem hj]
        exact decide_eq_true hne
      unfold Holds at hholds
      rw [hplace] at hholds
      refine ⟨?_, ?_⟩
      · dsimp only
        rw [hholds]
      · dsimp only
        rw [hholds]
        exact inUse_start _
    · refine ⟨?_, hholds⟩
      rw [hphase] at hadmits
      refine decide_eq_true fun hplanning => ?_
      rw [hplanning] at hadmits
      cases hadmits
  | throws =>
    unfold step at h
    rw [Option.ite_none_left_eq_some, not_not] at h
    obtain ⟨hphase, h⟩ := h
    obtain rfl := Option.some.inj h
    refine kept_phase hkept fun task _ hadmits => ?_
    rw [hphase] at hadmits
    exact hadmits
  | acquires i =>
    unfold step at h
    rw [Option.ite_none_left_eq_some] at h
    refine kept_onTask hkept h.2 (fun _ _ hadmits => hadmits) fun task htask _ hadmits hholds => ?_
    refine ⟨hadmits, ?_⟩
    simp only [inOrder, htask, Option.all_some] at horder
    unfold Holds at hholds ⊢
    rcases Bool.or_eq_true_iff.mp horder with hplace | hplace
    · rw [of_decide_eq_true hplace] at hholds ⊢
      exact hholds
    · rw [of_decide_eq_true hplace] at hholds ⊢
      exact hholds
  | creates i =>
    unfold step at h
    rw [Option.ite_none_left_eq_some, Bool.not_eq_true', Bool.not_eq_false] at h
    refine kept_executing hkept h.1 h.2 (fun task hmay => ?_) fun task _ hmay hholds => ?_
    all_goals
      simp only [Bool.and_eq_true, decide_eq_true_eq] at hmay
      obtain ⟨⟨hplace, -⟩, -⟩ := hmay
    · rw [hplace]
      rfl
    · unfold Holds at hholds ⊢
      rw [hplace] at hholds ⊢
      exact ⟨nofun, hholds.1, inUse_start true⟩
  | advances i advance =>
    unfold step at h
    rw [Option.ite_none_left_eq_some, Bool.not_eq_true', Bool.not_eq_false] at h
    refine kept_executing hkept h.1 h.2 (fun task hmay => ?_) fun task _ hmay hholds => ?_
    all_goals
      simp only [Bool.and_eq_true, decide_eq_true_eq] at hmay
      obtain ⟨hplace, -⟩ := hmay
    · rw [hplace]
      rfl
    · unfold Holds at hholds
      rw [hplace] at hholds
      have hgone := modifyHead_gone hholds.2.owned.head hholds.2.tail
      cases advance with
      | inPlace =>
        unfold advanceWorkspace Holds
        rw [hplace]
        exact ⟨nofun, hholds⟩
      | replaced =>
        unfold advanceWorkspace Holds
        rw [hplace]
        refine ⟨nofun, hholds.1, fun _ hin => ?_, hgone⟩
        cases hin
        rfl
      | lost => exact ⟨nofun, hholds.1, hgone⟩
  | handsBack i calls =>
    unfold step at h
    rw [Option.ite_none_left_eq_some, Bool.not_eq_true', Bool.not_eq_false] at h
    refine kept_executing hkept h.1 h.2 (fun task hmay => ?_) fun task _ hmay hholds => ?_
    all_goals
      simp only [Bool.and_eq_true, decide_eq_true_eq] at hmay
      obtain ⟨hplace, -⟩ := hmay
    · rw [hplace]
      rfl
    · unfold Holds at hholds
      rw [hplace] at hholds
      exact ⟨nofun, cleanupTask_gone horder hholds.2.owned⟩
  | returns i =>
    unfold step at h
    rw [Option.ite_none_left_eq_some, Bool.not_eq_true', Bool.not_eq_false] at h
    refine kept_executing hkept h.1 h.2 (fun task hmay => ?_) fun task _ hmay hholds => ?_
    all_goals have hplace := of_decide_eq_true hmay
    · rw [hplace]
      rfl
    · unfold Holds at hholds
      rw [hplace] at hholds
      obtain ⟨hsession, hleases, hgone⟩ := hholds
      exact ⟨nofun, clean_of_gone (.inl hsession) hleases hgone⟩
  | prepares i =>
    unfold step at h
    rw [Option.ite_none_left_eq_some, Bool.not_eq_true', Bool.not_eq_false] at h
    refine kept_executing hkept h.1 h.2 (fun task hmay => ?_) fun task _ hmay hholds => ?_
    all_goals
      simp only [Bool.and_eq_true, decide_eq_true_eq] at hmay
      obtain ⟨hplace, -⟩ := hmay
    · rw [hplace]
      rfl
    · unfold Holds at hholds
      rw [hplace] at hholds
      exact ⟨nofun, hholds⟩
  | fails i paused calls recorded => exact kept_fails hkept horder h
  | gathered =>
    unfold step at h
    rw [Option.ite_none_left_eq_some, not_or, not_not] at h
    obtain ⟨⟨hphase, hrunning⟩, h⟩ := h
    obtain rfl := Option.some.inj h
    refine kept_phase hkept fun task htask hadmits => ?_
    rw [hphase] at hadmits
    have hnone := none_of_not_any hrunning htask
    cases hplace : task.place with
    | planning =>
      rw [hplace] at hadmits
      cases hadmits
    | working | failing | cleaned =>
      rw [hplace] at hnone
      cases hnone
    | pending | prepared | ended => rfl
  | integrates i outcome calls noted =>
    unfold step at h
    rw [Option.ite_none_left_eq_some, not_or, not_not] at h
    obtain ⟨⟨hphase, -⟩, h⟩ := h
    unfold inOrder at horder
    simp only [Bool.and_eq_true, Bool.or_eq_true, decide_eq_true_eq] at horder
    obtain ⟨⟨hcalls, houtcome⟩, hnoted⟩ := horder
    cases outcome with
    | unrecorded => exact absurd rfl houtcome
    | settled integrated =>
      refine kept_onTask hkept h (fun task htask hadmits => ?_) fun task _ hmay _ hholds => ?_
      · rw [hphase] at hadmits
        cases noted with
        | true => exact hadmits
        | false => exact aside_of_others (hnoted.resolve_left Bool.false_ne_true) task htask
      · unfold Holds at hholds
        rw [of_decide_eq_true hmay] at hholds
        refine ended_kept ?_ (integrateTask_clean integrated hcalls hholds.2)
        unfold integrateTask
        split
        · exact ⟨_, rfl⟩
        · exact ⟨_, rfl⟩
  | drops i calls recorded =>
    unfold step at h
    rw [Option.ite_none_left_eq_some, not_or, not_not] at h
    obtain ⟨⟨hphase, hprepared⟩, h⟩ := h
    refine kept_onTask hkept h (fun task htask hadmits => ?_) fun task _ hmay _ hholds => ?_
    · rw [hphase] at hadmits
      have hnone := none_of_not_any hprepared (List.eraseIdx_subset htask)
      have haside := (Bool.or_eq_true_iff.mp hadmits).resolve_right (ne_true_of_eq_false hnone)
      cases recorded with
      | true => exact hadmits
      | false => exact haside
    · unfold Holds at hholds
      rw [of_decide_eq_true hmay] at hholds
      exact ended_kept ⟨_, rfl⟩ (abandon_clean horder hholds)
  | loops =>
    unfold step at h
    rw [Option.ite_none_left_eq_some, not_or, not_not] at h
    obtain ⟨⟨hphase, hprepared⟩, h⟩ := h
    obtain rfl := Option.some.inj h
    refine kept_phase hkept fun task htask hadmits => ?_
    rw [hphase] at hadmits
    have hnone := none_of_not_any hprepared htask
    exact (Bool.or_eq_true_iff.mp hadmits).resolve_right (ne_true_of_eq_false hnone)
  | collapses calls =>
    unfold step at h
    rw [Option.ite_none_left_eq_some, not_not] at h
    obtain ⟨hphase, h⟩ := h
    obtain rfl := Option.some.inj h
    intro task htask
    obtain ⟨j, hj, rfl⟩ := List.mem_mapIdx.mp htask
    obtain ⟨hadmits, hholds⟩ := hkept s.tasks[j] (List.getElem_mem hj)
    split
    · rename_i hplace
      unfold Holds at hholds
      rw [hplace] at hholds
      have hcalls := List.all_eq_true.mp horder j (List.mem_range.mpr hj)
      exact ended_kept ⟨_, rfl⟩ (abandon_clean hcalls hholds)
    · rename_i hplace
      rw [hphase] at hadmits
      exact ⟨Bool.and_eq_true_iff.mpr ⟨hadmits, decide_eq_true hplace⟩, hholds⟩
  | finishes =>
    unfold step at h
    rw [Option.ite_none_left_eq_some, not_or, not_not] at h
    obtain ⟨⟨hphase, hpending⟩, h⟩ := h
    obtain rfl := Option.some.inj h
    refine kept_phase hkept fun task htask hadmits => ?_
    rw [hphase] at hadmits
    have hnone := none_of_not_any hpending htask
    exact Bool.and_eq_true_iff.mpr ⟨hadmits, decide_eq_true (of_decide_eq_false hnone)⟩

/-- The tasks of a run, before they are planned: whether each of them is in a conversation,
and whether it continues one that is open. -/
def State.start (turns : List (Bool × Bool)) : State where
  tasks := turns.map fun turn =>
    { conversation := turn.1
      resumed := turn.2
      held := ⟨.unopened, if turn.2 then [{}] else [], false⟩
      place := .planning
      started := false }
  phase := .planning

/-- **A run whose steps are in order has, when it is over, closed every session or handed it
to the registry, ended every workspace in one way, and released every lease.** -/
theorem run_leaves_nothing {turns : List (Bool × Bool)} {es : List Event}
    (horder : Throughout step (fun s e => inOrder s e = true) (.start turns) es)
    (h : run step (.start turns) es = some s) (hover : s.phase = .over) :
    ∀ task ∈ s.tasks, Clean task := by
  have hstart : Kept (.start turns) := by
    intro task htask
    obtain ⟨turn, -, rfl⟩ := List.mem_map.mp htask
    exact ⟨rfl, rfl⟩
  have hkept : Kept s :=
    run_invariant (fun _ _ _ hkept horder h => kept_step hkept horder h) hstart horder h
  intro task htask
  obtain ⟨hadmits, hholds⟩ := hkept task htask
  rw [hover] at hadmits
  unfold Holds at hholds
  cases hplace : task.place with
  | ended =>
    rw [hplace] at hholds
    exact hholds
  | planning | pending | working | failing | cleaned | prepared =>
    rw [hplace] at hadmits
    cases hadmits

end

/-! ## What a wave leaves behind -/

/-- Every call of a teardown succeeds, and the pool takes nothing. -/
def allSucceed : Calls := ⟨true, true, false⟩

/-- Two tasks are planned and started together, each with its leases and a workspace. -/
def startTwo : List Event :=
  [.plans 0, .plans 1, .planned, .waved [0, 1], .acquires 0, .acquires 1, .creates 0, .creates 1]

/-- A turn of a conversation lands, and the other task of its wave fails. -/
def oneLands : List Event :=
  startTwo ++ [.prepares 0, .fails 1 false allSucceed true, .gathered,
    .integrates 0 (.settled true) allSucceed true, .loops, .finishes]

/-- The conversation is handed over, and the other task is cleaned up. -/
theorem run_leaves_nothing_landed :
    ∃ s, run step (.start [(true, false), (false, false)]) oneLands = some s ∧
      s.tasks.map Task.held =
        [⟨.handed, [{ handed := true }], false⟩, ⟨.cancelled, [gone], false⟩] ∧
      ∀ task ∈ s.tasks, Clean task := by
  have hrun : (run step (.start [(true, false), (false, false)]) oneLands).map
      (fun s => (s.tasks.map Task.held, s.phase)) =
        some ([⟨.handed, [{ handed := true }], false⟩, ⟨.cancelled, [gone], false⟩], .over) := by
    decide
  obtain ⟨s, hs, hends⟩ := Option.map_eq_some_iff.mp hrun
  obtain ⟨hheld, hover⟩ := Prod.mk.inj hends
  exact ⟨s, hs, hheld, run_leaves_nothing (by decide) hs hover⟩

/-- **A task whose ending cannot be recorded ends the run, and the other task of its wave
keeps its session, its workspace and its leases.** -/
theorem wave_left_behind :
    ∃ s, run step (.start [(false, false), (false, false)])
        (startTwo ++ [.fails 0 false allSucceed false, .collapses fun _ => allSucceed]) = some s ∧
      s.phase = .over ∧ ¬∀ task ∈ s.tasks, Clean task := by
  have hrun : (run step (.start [(false, false), (false, false)])
      (startTwo ++ [.fails 0 false allSucceed false, .collapses fun _ => allSucceed])).map
        (fun s => (s.tasks.map Task.held, s.phase)) =
          some ([⟨.cancelled, [gone], false⟩, ⟨.opened, [{}], true⟩], .over) := by
    decide
  obtain ⟨s, hs, hends⟩ := Option.map_eq_some_iff.mp hrun
  obtain ⟨hheld, hover⟩ := Prod.mk.inj hends
  refine ⟨s, hs, hover, fun hclean => ?_⟩
  have hin : (⟨.opened, [{}], true⟩ : Held) ∈ s.tasks.map Task.held := by
    rw [hheld]
    exact List.mem_cons_of_mem _ (List.mem_singleton_self _)
  obtain ⟨task, htask, heq⟩ := List.mem_map.mp hin
  exact (hclean task htask).session (by rw [heq])

end AgenticGit.Coordinator.Teardown
