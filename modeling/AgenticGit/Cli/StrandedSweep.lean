import AgenticGit.Cli.OneExecutor

/- The sweep for stranded work (`reapStrandedWork`, `recovery.ts`), split at its
   awaits, beside the calls of `acceptWorkResult`, the runs of this process and every
   other method of the queue.

   Correspondence (TypeScript ↔ Lean):
     `CLAIMED_GRACE_MS`, `task.claimedAt`     ↔ `claimedGraceMs`, `claimedAt`
     `listSubmittedTasks({ status: "claimed" })` and the filter on `claimedAt`
                                              ↔ the event `listed`
     `listWorkLeases({ status: "active" })`   ↔ the event `readLeases`
     the body of the loop over the candidates ↔ the event `retried`, once a task
     a run of this process that leased a task, or claimed tasks without leases
                                              ↔ `runs`, until `runEnded`
     the settling of a lease, the integration and the completion of a task by
       `acceptWorkResult`, and its other stretches ↔ `Event.control`
   The announcement in the thread writes no task and is left out. `takenLive` records
   the tasks the sweep returned while somebody was at work on them.

   What is proved:
     1. `working_step` — work on a task begins with handing it out, and with nothing else.
     2. `never_takes_live` — where every task a sweep puts back was idle when it read
        the leases, and has not been handed out since, no live work is taken.
     3. `swept_while_integrating` — the grace counts from the claim, so a result that is
        being integrated, its lease settled, is queued and handed out again. -/
namespace AgenticGit.Cli.StrandedSweep
open AgenticGit.Runs AgenticGit.Persistence AgenticGit.Cli.ResultCalls

/-! ## The system -/

def claimedGraceMs : Int := 2 * 60000

/-- A sweep on its way: the tasks it has still to look at, and the tasks it found
leased, once it has read the leases. -/
structure Sweep where
  candidates : List String
  leased : Option (List String) := none
  /-- The listed tasks somebody was at work on when the leases were read, and the tasks
  handed out since; for the statements. -/
  busy : List String := []
  deriving DecidableEq, Repr

structure System where
  control : Control := {}
  claimedAt : String → Option Int := fun _ => none
  /-- The tasks that runs of this process are going to integrate. -/
  runs : List String := []
  sweeps : List Sweep := []
  takenLive : List String := []

inductive Event where
  /-- A method of the queue, or a stretch of a call. -/
  | control (now : Int) (event : ResultCalls.Event)
  | saveWorkLeasePlan (input : SaveWorkLeasePlanInput)
  /-- A run leases a task, or claims tasks where it has nobody to lease them for. -/
  | ranLeased (now : Int) (lease : WorkLease)
  | ranUnleased (now : Int) (ids : List String)
  | runEnded (i : Nat)
  | listed (now : Int) (ids : List String)
  | readLeases (i : Nat)
  | retried (i : Nat)

def stamped (claimedAt : String → Option Int) (now : Int) (before after : QueueStore) :
    String → Option Int := fun id =>
  if taskClaimed after id ∧ after.tasks id ≠ before.tasks id then some now else claimedAt id

def handedOut (after : QueueStore) : ResultCalls.Event → List String
  | .leaseNextTask _ lease => if lease ∈ after.leases then [lease.taskId] else []
  | _ => []

def Sweep.handed (sweep : Sweep) (ids : List String) : Sweep :=
  { sweep with busy := sweep.busy ++ ids }

/-- The system after a method of the queue at a time, and the tasks it handed out. -/
def System.controlled (s : System) (now : Int) (control : Control) (ids : List String) :
    System :=
  { s with
    control
    claimedAt := stamped s.claimedAt now s.control.queue control.queue
    sweeps := s.sweeps.map fun sweep => sweep.handed ids }

/-- `new Set(listWorkLeases({ status: "active" }).map(lease => lease.taskId))`. -/
def activeTasks (queue : QueueStore) : List String :=
  (queue.leases.filter fun lease => lease.status = .active).map WorkLease.taskId

def strandedSince (s : System) (claimedBefore : Int) (id : String) : Bool :=
  taskClaimed s.control.queue id && (s.claimedAt id).all fun claimedAt => claimedAt < claimedBefore

/-- Whether somebody is at work on a task: a worker or a run holds a lease on it, a run
is going to integrate it, or a call that has settled its lease is integrating it. A call
that has not settled its lease integrates only what is still leased. -/
def System.live (s : System) (id : String) : Bool :=
  s.control.queue.leased id || id ∈ s.runs ||
    s.control.calls.any fun call => call.task = id && call.phase.integrates

/-- One candidate of a sweep that has read the leases: `id`, and `rest` after it. -/
def reap (s : System) (i : Nat) (id : String) (rest leased busy : List String) : System :=
  let s' := { s with sweeps := s.sweeps.set i ⟨rest, some leased, busy⟩ }
  if id ∈ leased then s'
  else
    match s.control.queue.retrySubmittedTask id with
    | some queue =>
      { s' with
        control := s.control.store queue
        takenLive := if s.live id then s.takenLive ++ [id] else s.takenLive }
    | none => s'

def step (s : System) : Event → Option System
  | .control now event =>
    (ResultCalls.step s.control event).map fun control =>
      s.controlled now control (handedOut control.queue event)
  | .saveWorkLeasePlan input =>
    let leases := (Persistence.saveWorkLeasePlan s.control.queue.leases input).1
    some { s with control := s.control.store { s.control.queue with leases } }
  | .ranLeased now lease =>
    (ResultCalls.step s.control (.leaseNextTask now lease)).map fun control =>
      let ids := handedOut control.queue (.leaseNextTask now lease)
      { s.controlled now control ids with runs := s.runs ++ ids }
  | .ranUnleased now ids =>
    let ids := ids.filter fun id => s.control.queue.changes id [.submitted]
    (ResultCalls.step s.control (.claimSubmittedTasks ids)).map fun control =>
      { s.controlled now control ids with runs := s.runs ++ ids }
  | .runEnded i => some { s with runs := s.runs.eraseIdx i }
  | .listed now ids =>
    if ∀ id ∈ ids, strandedSince s (now - claimedGraceMs) id = true then
      some { s with sweeps := s.sweeps ++ [{ candidates := ids }] }
    else none
  | .readLeases i =>
    match s.sweeps[i]? with
    | some ⟨candidates, none, _⟩ =>
      let read := ⟨candidates, some (activeTasks s.control.queue), candidates.filter s.live⟩
      some { s with sweeps := s.sweeps.set i read }
    | _ => none
  | .retried i =>
    match s.sweeps[i]? with
    | some ⟨id :: rest, some leased, busy⟩ => some (reap s i id rest leased busy)
    | _ => none

/-! ## When the sweep is sound -/

/-- A task that a sweep puts back was idle when the sweep read the leases, and has not
been handed out since. -/
def atRest (s : System) : Event → Bool
  | .retried i =>
    match s.sweeps[i]? with
    | some ⟨id :: _, some leased, busy⟩ =>
      id ∈ leased || id ∉ busy || !s.control.queue.changes id [.claimed, .failed]
    | _ => true
  | _ => true

def AtRest (s : System) (event : Event) : Prop := atRest s event = true

instance (s : System) : DecidablePred (AtRest s) := fun event =>
  inferInstanceAs (Decidable (atRest s event = true))

/-! ## How work on a task begins -/

/-- Whether a task is leased, or the result of a settled lease on it being integrated. -/
def Working (control : Control) (id : String) : Prop :=
  control.queue.leased id = true ∨
    ∃ call ∈ control.calls, call.task = id ∧ call.phase.integrates = true

theorem live_iff {s : System} {id : String} :
    s.live id = true ↔ Working s.control id ∨ id ∈ s.runs := by
  simp only [System.live, Working, Bool.or_eq_true, decide_eq_true_eq, List.any_eq_true,
    Bool.and_eq_true]
  exact or_right_comm

theorem leased_later {queue queue' : QueueStore} (hlater : queue.Later queue') {id : String}
    (h : queue'.leased id = true) : queue.leased id = true := by
  obtain ⟨f, hf, hleases⟩ := hlater
  obtain ⟨lease, hlease, hactive, htask⟩ := QueueStore.leased_iff.mp h
  rw [hleases] at hlease
  obtain ⟨old, hold, rfl⟩ := List.mem_map.mp hlease
  exact QueueStore.leased_iff.mpr
    ⟨old, hold, (hf old).active hactive, (hf old).taskId.symm.trans htask⟩

theorem working_store {s : Control} {queue : QueueStore} (hlater : s.queue.Later queue)
    {id : String} (h : Working (s.store queue) id) : Working s id := by
  rcases h with h | h
  · exact .inl (leased_later hlater h)
  · exact .inr h

/-- A stretch of a call leases nothing, and goes into the integration from the
integration or from an active lease. -/
theorem working_after {s : Control} (ht : Tied s) {i : Nat} {call : Call} {now : Int} {move : Move}
    {done : Advance} (hcall : s.calls[i]? = some call)
    (hstretch : Stretch s.queue call now move done) {id : String}
    (h : Working (s.after i call done) id) : Working s id := by
  have hmem := List.mem_of_getElem? hcall
  have hlater : s.queue.Later done.queue := by
    cases hstretch with
    | walks => exact QueueStore.later_of_eq rfl
    | settles status phase ended _ _ hended =>
      have := QueueStore.later_finishWorkLease s.queue call.lease status now
      rwa [hended] at this
    | releases => exact QueueStore.later_finishWorkLease s.queue call.lease .released now
    | records status phase ended _ _ hended =>
      obtain ⟨_, rfl⟩ := QueueStore.completeSubmittedTask_some hended
      apply QueueStore.later_update
    | returns retried _ hretried =>
      obtain ⟨_, rfl⟩ := QueueStore.retrySubmittedTask_some hretried
      apply QueueStore.later_update
  rcases h with h | ⟨other, hother, htask, hintegrates⟩
  · exact .inl (leased_later hlater h)
  · rcases List.mem_or_eq_of_mem_set hother with hother | rfl
    · exact .inr ⟨other, hother, htask, hintegrates⟩
    · cases hstretch with
      | walks phase advanced howes hin =>
        exact .inr ⟨call, hmem, htask, hin hintegrates⟩
      | settles status phase ended _ _ hended =>
        obtain ⟨lease, hlease, hid, hactive, _⟩ := QueueStore.finishWorkLease_true hended
        have hleaseTask := ht.taskId_eq hmem hlease hid
        exact .inl (QueueStore.leased_iff.mpr ⟨lease, hlease, hactive, hleaseTask.trans htask⟩)
      | releases phase hout =>
        rw [owes_of_integrates hintegrates] at hout
        cases hout
      | records status phase ended _ hout =>
        rw [owes_of_integrates hintegrates] at hout
        cases hout
      | returns => cases hintegrates

/-- **Work on a task begins with handing it out.** -/
theorem working_step {s s' : Control} {event : ResultCalls.Event} (ht : Tied s)
    (hs : ResultCalls.step s event = some s') {id : String} (h : Working s' id) :
    Working s id ∨ id ∈ handedOut s'.queue event := by
  cases step_cases hs with
  | store queue hlater => exact .inl (working_store hlater h)
  | leases now lease hfresh =>
    cases hnext : s.queue.leaseNextTask now lease with
    | none =>
      rw [hnext] at h
      exact .inl h
    | some queue =>
      rw [hnext] at h
      have hexpired := QueueStore.later_expireWorkLeases s.queue now
      rcases QueueStore.leaseNextTask_cases hnext with rfl | ⟨_, _, _, _, _, hleases⟩
      · exact .inl (working_store hexpired h)
      · rcases h with h | h
        · obtain ⟨held, hheld, hactive, htask⟩ := QueueStore.leased_iff.mp h
          change held ∈ queue.leases at hheld
          rw [hleases] at hheld
          rcases List.mem_append.mp hheld with hheld | hheld
          · exact .inl (.inl (leased_later hexpired
              (QueueStore.leased_iff.mpr ⟨held, hheld, hactive, htask⟩)))
          · have hin : lease ∈ queue.leases := by
              rw [hleases]
              exact List.mem_append_right _ (List.mem_singleton_self lease)
            rw [List.mem_singleton.mp hheld] at htask
            refine .inr ?_
            show id ∈ if lease ∈ queue.leases then [lease.taskId] else []
            rw [if_pos hin, htask]
            exact List.mem_singleton_self id
        · exact .inl (.inr h)
  | begins lease hlease =>
    rcases h with h | ⟨call, hcall, htask, hintegrates⟩
    · exact .inl (.inl h)
    · rcases List.mem_append.mp hcall with hcall | hcall
      · exact .inl (.inr ⟨call, hcall, htask, hintegrates⟩)
      · cases List.mem_singleton.mp hcall
        cases hintegrates
  | calls i move now call done hcall hdone =>
    exact .inl (working_after ht hcall (advance_cases hdone).2 h)

/-! ## What a sweep counts on -/

/-- What a sweep that has read the leases is going to put back is idle, unless it was at
work then or has been handed out since; and no live work has been taken. -/
structure Counts (s : System) : Prop where
  tied : Tied s.control
  idle : ∀ sweep ∈ s.sweeps, ∀ leased, sweep.leased = some leased → ∀ id ∈ sweep.candidates,
    id ∉ leased → id ∉ sweep.busy → s.live id = false
  taken : s.takenLive = []

theorem counts_init : Counts {} where
  tied := tied_init
  idle _ hsweep := absurd hsweep List.not_mem_nil
  taken := rfl

section Steps

variable {s : System}

theorem counts_controlled (h : Counts s) {now : Int} {control : Control} {ids runs : List String}
    (ht : Tied control) (hworking : ∀ id, Working control id → Working s.control id ∨ id ∈ ids)
    (hruns : ∀ id ∈ runs, id ∈ s.runs ∨ id ∈ ids) :
    Counts { s.controlled now control ids with runs } := by
  refine ⟨ht, ?_, h.taken⟩
  intro sweep hsweep leased hleased id hid hout hbusy
  obtain ⟨old, hold, rfl⟩ := List.mem_map.mp hsweep
  obtain ⟨hold', hnew⟩ := not_or.mp (fun hor => hbusy (List.mem_append.mpr hor))
  have hidle := h.idle old hold leased hleased id hid hout hold'
  refine Bool.eq_false_iff.mpr fun hlive => ?_
  refine Bool.eq_false_iff.mp hidle (live_iff.mpr ?_)
  rcases live_iff.mp hlive with hwork | hrun
  · exact .inl ((hworking id hwork).resolve_right hnew)
  · exact .inr ((hruns id hrun).resolve_right hnew)

theorem later_saveWorkLeasePlan (queue : QueueStore) (input : SaveWorkLeasePlanInput) :
    queue.Later { queue with leases := (saveWorkLeasePlan queue.leases input).1 } := by
  cases hsave : saveWorkLeasePlan queue.leases input with
  | mk leases result =>
    by_cases hsaved : ∃ lease, result = .saved lease
    · obtain ⟨lease, rfl⟩ := hsaved
      obtain ⟨_, _, _, _, _, _, rfl⟩ := saveWorkLeasePlan_saved hsave
      refine ⟨_, ?_, rfl⟩
      intro lease
      exact QueueStore.follows_ite _ fun _ => ⟨rfl, rfl, .inl rfl⟩
    · have hother := saveWorkLeasePlan_other hsave fun lease heq => hsaved ⟨lease, heq⟩
      exact QueueStore.later_of_eq hother

theorem counts_store (h : Counts s) {queue : QueueStore} (hlater : s.control.queue.Later queue) :
    Counts { s with control := s.control.store queue } := by
  refine ⟨tied_store h.tied hlater, ?_, h.taken⟩
  intro sweep hsweep leased hleased id hid hout hbusy
  have hidle := h.idle sweep hsweep leased hleased id hid hout hbusy
  refine Bool.eq_false_iff.mpr fun hlive => Bool.eq_false_iff.mp hidle (live_iff.mpr ?_)
  exact (live_iff.mp hlive).imp_left (working_store hlater)

theorem counts_set (h : Counts s) {i : Nat} {sweep : Sweep}
    (hsweep : ∀ leased, sweep.leased = some leased → ∀ id ∈ sweep.candidates, id ∉ leased →
      id ∉ sweep.busy → s.live id = false) :
    Counts { s with sweeps := s.sweeps.set i sweep } := by
  refine ⟨h.tied, ?_, h.taken⟩
  intro other hother
  rcases List.mem_or_eq_of_mem_set hother with hother | rfl
  · exact h.idle other hother
  · exact hsweep

theorem counts_reap (h : Counts s) {i : Nat} {id : String} {rest leased busy : List String}
    (hsweep : s.sweeps[i]? = some ⟨id :: rest, some leased, busy⟩)
    (hrest : AtRest s (.retried i)) : Counts (reap s i id rest leased busy) := by
  have hidle := h.idle _ (List.mem_of_getElem? hsweep) leased rfl
  have hgone : Counts { s with sweeps := s.sweeps.set i ⟨rest, some leased, busy⟩ } := by
    refine counts_set h fun leased' hleased other hother => ?_
    cases hleased
    exact hidle other (List.mem_cons_of_mem _ hother)
  simp only [reap]
  split
  · exact hgone
  · rename_i hout
    split
    · rename_i queue hretried
      obtain ⟨hchanges, rfl⟩ := QueueStore.retrySubmittedTask_some hretried
      have hbusy : id ∉ busy := by
        simp only [AtRest, atRest, hsweep, hchanges, Bool.not_true, Bool.or_false,
          Bool.or_eq_true, decide_eq_true_eq] at hrest
        exact hrest.resolve_left hout
      have hlive := hidle id List.mem_cons_self hout hbusy
      obtain ⟨ht, hfree, htaken⟩ :=
        counts_store hgone (QueueStore.later_update s.control.queue id [.claimed, .failed] .submitted)
      refine ⟨ht, hfree, ?_⟩
      rw [hlive]
      exact htaken
    · exact hgone

end Steps

theorem counts_step (s : System) (event : Event) (s' : System) (h : Counts s)
    (hrest : AtRest s event) (hs : step s event = some s') : Counts s' := by
  cases event with
  | control now event =>
    obtain ⟨control, hcontrol, rfl⟩ := Option.map_eq_some_iff.mp hs
    refine counts_controlled h (tied_step _ _ _ h.tied hcontrol) ?_ fun _ => .inl
    exact fun id => working_step h.tied hcontrol
  | saveWorkLeasePlan input =>
    cases hs
    exact counts_store h (later_saveWorkLeasePlan s.control.queue input)
  | ranLeased now lease =>
    obtain ⟨control, hcontrol, rfl⟩ := Option.map_eq_some_iff.mp hs
    refine counts_controlled h (tied_step _ _ _ h.tied hcontrol) ?_ fun _ => List.mem_append.mp
    exact fun id => working_step h.tied hcontrol
  | ranUnleased now ids =>
    simp only [step] at hs
    obtain ⟨control, hcontrol, rfl⟩ := Option.map_eq_some_iff.mp hs
    refine counts_controlled h (tied_step _ _ _ h.tied hcontrol) ?_ fun _ => List.mem_append.mp
    intro id hworking
    exact .inl ((working_step h.tied hcontrol hworking).resolve_right List.not_mem_nil)
  | runEnded i =>
    cases hs
    refine ⟨h.tied, ?_, h.taken⟩
    intro sweep hsweep leased hleased id hid hout hbusy
    have hidle := h.idle sweep hsweep leased hleased id hid hout hbusy
    refine Bool.eq_false_iff.mpr fun hlive => Bool.eq_false_iff.mp hidle (live_iff.mpr ?_)
    exact (live_iff.mp hlive).imp_right List.mem_of_mem_eraseIdx
  | listed now ids =>
    obtain ⟨_, hs⟩ := Option.ite_none_right_eq_some.mp hs
    cases hs
    refine ⟨h.tied, ?_, h.taken⟩
    intro sweep hsweep leased hleased
    rcases List.mem_append.mp hsweep with hsweep | hsweep
    · exact h.idle sweep hsweep leased hleased
    · cases List.mem_singleton.mp hsweep
      cases hleased
  | readLeases i =>
    simp only [step] at hs
    split at hs
    · cases hs
      refine counts_set h fun leased hleased id hid _ hbusy => ?_
      refine Bool.eq_false_iff.mpr fun hlive => hbusy ?_
      exact List.mem_filter.mpr ⟨hid, hlive⟩
    · cases hs
  | retried i =>
    simp only [step] at hs
    split at hs
    · rename_i id rest leased busy hsweep
      cases hs
      exact counts_reap h hsweep hrest
    · cases hs

/-- **The sweep takes no live work**, in every run in which each task it puts back was
idle when it read the leases and has not been handed out since. -/
theorem never_takes_live {events : List Event} {s : System} (h : Throughout step AtRest {} events)
    (hs : run step {} events = some s) : s.takenLive = [] :=
  (run_invariant counts_step counts_init h hs).taken

/-- A run settles its lease and is gone before it records the task. -/
def settledAndGone : List Event :=
  [.control 0 (.submitTask "t" false []), .ranLeased 1 (leaseOn "L1" 300000),
    .control 2 (.finishWorkLease "L1" .completed 2), .runEnded 0, .listed 200000 ["t"],
    .readLeases 0, .retried 0]

theorem never_takes_live_gone :
    ∃ s, run step {} settledAndGone = some s ∧
      statusOf s.control.queue "t" = some .submitted ∧ s.takenLive = [] := by
  have hrun : (run step {} settledAndGone).map (fun s => statusOf s.control.queue "t") =
      some (some .submitted) := by decide
  obtain ⟨s, hs, hstatus⟩ := Option.map_eq_some_iff.mp hrun
  exact ⟨s, hs, hstatus, never_takes_live (by decide) hs⟩

/-- A worker reports its result; the lease is settled, and while the result is being
integrated the task is swept, three minutes after it was claimed. -/
def integratingWhenSwept : List Event :=
  [.control 0 (.submitTask "t" false []), .control 1 (.leaseNextTask 1 (leaseOn "L1" 300000)),
    .control 100000 (.begin "L1" 100000), .control 100001 (.call 0 .read 100001),
    .control 100002 (.call 0 .run 100002), .control 100003 (.call 0 .settle 100003),
    .listed 180000 ["t"], .readLeases 0, .retried 0,
    .control 180001 (.leaseNextTask 180001 (leaseOn "L2" 480001)),
    .control 180002 (.call 0 (.integrate .integrated) 180002)]

/-- The task, under whose claim it is, what has been taken and what has moved
canonical. -/
def afterSweep (s : System) : Option SubmittedTask × List String × List String :=
  (s.control.queue.tasks "t", s.takenLive, s.control.advanced)

/-- The task is handed out again, and then the first result moves canonical. -/
theorem swept_while_integrating :
    (run step {} integratingWhenSwept).map afterSweep =
        some (some ⟨.claimed, some "L2"⟩, ["t"], ["L1"]) ∧
      ¬ ∀ events s, run step {} events = some s → s.takenLive = [] := by
  have hrun : (run step {} integratingWhenSwept).map afterSweep =
      some (some ⟨.claimed, some "L2"⟩, ["t"], ["L1"]) := by decide
  refine ⟨hrun, fun hall => ?_⟩
  obtain ⟨s, hs, hafter⟩ := Option.map_eq_some_iff.mp hrun
  simp only [afterSweep, Prod.mk.injEq] at hafter
  obtain ⟨_, htaken, _⟩ := hafter
  rw [hall integratingWhenSwept s hs] at htaken
  cases htaken

end AgenticGit.Cli.StrandedSweep
