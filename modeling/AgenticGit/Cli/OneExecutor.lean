import AgenticGit.Cli.ResultCalls

/- A task has one executor, over the runs of `ResultCalls`.

   A lease answers for its task while it is active, and after a call settled it until
   that call is done or has put the task back (`Control.holds`). The store's methods
   match on a task's status alone, so nothing but the order of the steps keeps the
   claim under which a task was handed out the one its lease's calls act on.

   What is proved:
     1. `one_executor` — when nobody puts back a task that a lease answers for, and a
        call that finds its lease ended goes on only when it ended it, a task has at
        most one active lease, a queued task has none, and every step taken on behalf
        of a lease touches the task only under that lease's claim.
     2. `second_executor` — a call whose lease lapsed during its review puts back a
        task that is another worker's by then. -/
namespace AgenticGit.Cli.ResultCalls
open AgenticGit.Runs AgenticGit.Persistence

/-! ## Who answers for a task -/

/-- Whether the call settled this lease and is not done with it. -/
def Call.answers (call : Call) (lease : WorkLease) : Bool :=
  call.lease = lease.id && call.settled && !call.returned && call.phase ≠ .done

def Control.holds (s : Control) (lease : WorkLease) : Bool :=
  lease.status = .active || s.calls.any fun call => call.answers lease

def Control.held (s : Control) (taskId : String) : Bool :=
  s.queue.leases.any fun lease => lease.taskId = taskId && s.holds lease

/-- Nobody puts a task back into the queue that a lease answers for; a call that finds
its lease ended and its task claimed has ended the lease itself and not put the task
back. -/
def inOrder (s : Control) : Event → Bool
  | .retrySubmittedTask id => !(s.queue.changes id [.claimed, .failed] && s.held id)
  | .resumePausedTask id => !(s.queue.changes id [.paused] && s.held id)
  | .call i .read _ =>
    (s.calls[i]?).all fun call =>
      !(call.phase.asksClaim && taskClaimed s.queue call.task) || (call.settled && !call.returned)
  | _ => true

def InOrder (s : Control) (event : Event) : Prop := inOrder s event = true

instance (s : Control) : DecidablePred (InOrder s) := fun event =>
  inferInstanceAs (Decidable (inOrder s event = true))

/-! ## What is promised -/

def statusOf (queue : QueueStore) (taskId : String) : Option SubmittedTaskStatus :=
  (queue.tasks taskId).map SubmittedTask.status

def Event.onBehalfOf (s : Control) (leaseId : String) : Event → Prop
  | .call i _ _ => ∃ call, s.calls[i]? = some call ∧ call.lease = leaseId
  | .finishWorkLease id _ _ => id = leaseId
  | _ => False

/-- A task has one executor. -/
structure OneExecutor (s : Control) : Prop where
  one_active : ∀ taskId, (s.queue.leases.filter fun lease =>
    lease.status = .active && lease.taskId = taskId).length ≤ 1
  submitted_free : ∀ taskId task, s.queue.tasks taskId = some task → task.status = .submitted →
    s.queue.leased taskId = false
  /-- `leaseNextTask` does not throw, whatever task it picks. -/
  leasing_succeeds : ∀ now lease, (s.queue.leaseNextTask now lease).isSome = true
  own_claim : ∀ event s' leaseId, step s event = some s' → event.onBehalfOf s leaseId →
    ∀ taskId task, s.queue.tasks taskId = some task →
      statusOf s'.queue taskId ≠ some task.status → task.claimedUnder = some leaseId
  /-- So does an expiry, also the one inside `leaseNextTask`. -/
  own_expiry : ∀ now taskId task, s.queue.tasks taskId = some task →
    statusOf (s.queue.expireWorkLeases now) taskId ≠ some task.status →
      ∃ lease ∈ s.queue.leases, lease.status = .active ∧ lease.expiresAt ≤ now ∧
        task.claimedUnder = some lease.id

/-! ## The invariant -/

/-- The task of a lease is under that lease's claim, and not in the queue. -/
def Own (tasks : String → Option SubmittedTask) (lease : WorkLease) : Prop :=
  ∃ task, tasks lease.taskId = some task ∧ task.status ≠ .submitted ∧ task.status ≠ .planned ∧
    task.claimedUnder = some lease.id

structure Held (s : Control) : Prop where
  own : ∀ lease ∈ s.queue.leases, s.holds lease = true → Own s.queue.tasks lease
  owes : ∀ call ∈ s.calls, call.phase.owes = true → call.settled = true ∧ call.returned = false
  returned : ∀ call ∈ s.calls, call.returned = true → call.settled = true

theorem held_init : Held {} where
  own _ hlease := absurd hlease List.not_mem_nil
  owes _ hcall := absurd hcall List.not_mem_nil
  returned _ hcall := absurd hcall List.not_mem_nil

theorem answers_iff {call : Call} {lease : WorkLease} :
    call.answers lease = true ↔
      call.lease = lease.id ∧ call.settled = true ∧ call.returned = false ∧ call.phase ≠ .done := by
  simp only [Call.answers, Bool.and_eq_true, decide_eq_true_eq, Bool.not_eq_true', and_assoc, ne_eq,
    decide_not, decide_eq_false_iff_not]

theorem holds_iff {s : Control} {lease : WorkLease} :
    s.holds lease = true ↔
      lease.status = .active ∨ ∃ call ∈ s.calls, call.answers lease = true := by
  simp only [Control.holds, Bool.or_eq_true, decide_eq_true_eq, List.any_eq_true]

section Invariant

variable {s : Control}

theorem held_active {lease : WorkLease} (h : lease.status = .active) : s.holds lease = true :=
  holds_iff.mpr (.inl h)

theorem Held.single (h : Held s) (ht : Tied s) {a b : WorkLease} (ha : a ∈ s.queue.leases)
    (hb : b ∈ s.queue.leases) (haHolds : s.holds a = true) (hbHolds : s.holds b = true)
    (htask : a.taskId = b.taskId) : a = b := by
  obtain ⟨task, htaskA, _, _, hunderA⟩ := h.own a ha haHolds
  obtain ⟨task', htaskB, _, _, hunderB⟩ := h.own b hb hbHolds
  rw [htask, htaskB] at htaskA
  cases htaskA
  rw [hunderA] at hunderB
  exact ht.unique ha hb (Option.some.inj hunderB)

theorem own_updateWhere {queue : QueueStore} {lease : WorkLease} (h : Own queue.tasks lease)
    (ids : String → Bool) (among : List SubmittedTaskStatus) (status : SubmittedTaskStatus)
    (hout : (status ≠ .submitted ∧ status ≠ .planned) ∨ ids lease.taskId = false ∨
      ∀ task, queue.tasks lease.taskId = some task → task.status ∉ among) :
    Own (queue.updateWhere ids among status).tasks lease := by
  obtain ⟨task, htask, hsubmitted, hplanned, hunder⟩ := h
  refine ⟨if ids lease.taskId then QueueStore.move among status task else task, ?_, ?_⟩
  · simp [QueueStore.updateWhere, htask]
  · split
    · rename_i hid
      simp only [QueueStore.move]
      split
      · rename_i hin
        rcases hout with hstatus | hout | hout
        · exact ⟨hstatus.1, hstatus.2, hunder⟩
        · rw [hout] at hid
          cases hid
        · exact absurd hin (hout task htask)
      · exact ⟨hsubmitted, hplanned, hunder⟩
    · exact ⟨hsubmitted, hplanned, hunder⟩

theorem held_store (h : Held s) {queue : QueueStore} {f : WorkLease → WorkLease}
    (hf : ∀ lease, QueueStore.Follows lease (f lease))
    (hleases : queue.leases = s.queue.leases.map f)
    (hown : ∀ lease ∈ s.queue.leases, s.holds lease = true →
      (s.store queue).holds (f lease) = true → Own queue.tasks lease) :
    Held (s.store queue) := by
  refine ⟨?_, h.owes, h.returned⟩
  intro lease hlease hholds
  change lease ∈ queue.leases at hlease
  rw [hleases] at hlease
  obtain ⟨old, hold, rfl⟩ := List.mem_map.mp hlease
  have hholdsOld : s.holds old = true := by
    rcases holds_iff.mp hholds with hactive | ⟨call, hcall, hanswers⟩
    · exact held_active ((hf old).active hactive)
    · refine holds_iff.mpr (.inr ⟨call, hcall, ?_⟩)
      rw [Call.answers, (hf old).id] at hanswers
      exact hanswers
  obtain ⟨task, htask, hrest⟩ := hown old hold hholdsOld hholds
  refine ⟨task, ?_, ?_⟩
  · show queue.tasks (f old).taskId = some task
    rw [(hf old).taskId, htask]
  · rw [(hf old).id]
    exact hrest

theorem held_tasks (h : Held s) (queue : QueueStore) (hleases : queue.leases = s.queue.leases)
    (hown : ∀ lease ∈ s.queue.leases, s.holds lease = true → Own queue.tasks lease) :
    Held (s.store queue) := by
  refine held_store h (f := id) ?_ ?_ ?_
  · intro lease
    exact ⟨rfl, rfl, .inl rfl⟩
  · rw [List.map_id, hleases]
  · intro lease hlease hholds _
    exact hown lease hlease hholds

theorem held_finishWorkLease (h : Held s) (ht : Tied s) (id : String) (status : WorkLeaseStatus)
    (hstatus : status ≠ .active) (finishedAt : Int) :
    Held (s.store (s.queue.finishWorkLease id status finishedAt).1) := by
  cases hfinish : s.queue.finishWorkLease id status finishedAt with
  | mk ended done =>
    cases done with
    | false =>
      rw [QueueStore.finishWorkLease_false hfinish]
      exact h
    | true =>
      obtain ⟨lease, hlease, hid, hactive, hcan, hleases, htasks⟩ :=
        QueueStore.finishWorkLease_true hfinish
      refine held_store h (f := fun _ => _) ?_ hleases ?_
      · intro other
        exact QueueStore.follows_ite _ fun hended => ⟨rfl, rfl, .inr hended.2.1⟩
      · intro other hother hholds hstill
        rw [htasks]
        split
        · refine own_updateWhere (h.own other hother hholds) _ _ _ (.inr (.inl ?_))
          refine decide_eq_false fun htask => ?_
          cases h.single ht hother hlease hholds (held_active hactive) htask
          rw [if_pos ⟨hid, hactive, by simpa [QueueStore.canFinish, apply_ite] using hcan⟩]
            at hstill
          rcases holds_iff.mp hstill with hactive' | ⟨call, hcall, hanswers⟩
          · exact hstatus hactive'
          · obtain ⟨hcallLease, hsettled, _⟩ := answers_iff.mp hanswers
            exact ht.not_active hcall hsettled hlease hcallLease.symm hactive
        · exact h.own other hother hholds

theorem held_expireWorkLeases (h : Held s) (ht : Tied s) (now : Int) :
    Held (s.store (s.queue.expireWorkLeases now)) := by
  refine held_store h (f := fun _ => _) ?_ rfl ?_
  · intro lease
    exact QueueStore.follows_ite _ fun hended => ⟨rfl, rfl, .inr hended.1⟩
  · intro lease hlease hholds hstill
    refine own_updateWhere (h.own lease hlease hholds) _ _ _ (.inr (.inl ?_))
    by_contra hlapsed
    obtain ⟨lapsed, hmem, hactive, hexpired, htask⟩ :=
      QueueStore.lapsed_iff.mp ((Bool.not_eq_false _).mp hlapsed)
    cases h.single ht hmem hlease (held_active hactive) hholds htask
    rw [if_pos ⟨hactive, hexpired⟩] at hstill
    rcases holds_iff.mp hstill with hactive' | ⟨call, hcall, hanswers⟩
    · cases hactive'
    · obtain ⟨hcallLease, hsettled, _⟩ := answers_iff.mp hanswers
      exact ht.not_active hcall hsettled hlease hcallLease.symm hactive

theorem Held.not_held (h : Held s) {taskId : String} {task : SubmittedTask}
    (htask : s.queue.tasks taskId = some task) (hstatus : task.status = .submitted)
    {lease : WorkLease} (hlease : lease ∈ s.queue.leases) (hid : lease.taskId = taskId) :
    s.holds lease = false := by
  by_contra hholds
  obtain ⟨own, hown, hsubmitted, _⟩ := h.own lease hlease ((Bool.not_eq_false _).mp hholds)
  rw [hid, htask] at hown
  cases hown
  exact hsubmitted hstatus

variable {now : Int} {i : Nat} {call : Call}

theorem held_leaseNextTask (h : Held s) (ht : Tied s) {lease : WorkLease} :
    Held (s.store ((s.queue.leaseNextTask now lease).getD s.queue)) := by
  cases hnext : s.queue.leaseNextTask now lease with
  | none => exact h
  | some queue =>
    have hexpired := held_expireWorkLeases h ht now
    rcases QueueStore.leaseNextTask_cases hnext with
      rfl | ⟨task, htask, hsubmitted, _, htasks, hleases⟩
    · exact hexpired
    · refine ⟨?_, h.owes, h.returned⟩
      intro other hother hholds
      change other ∈ queue.leases at hother
      rw [hleases] at hother
      rcases List.mem_append.mp hother with hother | hother
      · obtain ⟨own, hown, hrest⟩ := hexpired.own other hother hholds
        refine ⟨own, ?_, hrest⟩
        show queue.tasks other.taskId = some own
        have hne : other.taskId ≠ lease.taskId := by
          intro hid
          have hfree := hexpired.not_held htask hsubmitted hother hid
          exact Bool.false_ne_true (hfree.symm.trans hholds)
        rw [htasks, Function.update_of_ne hne]
        exact hown
      · cases List.mem_singleton.mp hother
        refine ⟨⟨.claimed, some lease.id⟩, ?_, ?_, ?_, rfl⟩
        · show queue.tasks lease.taskId = _
          rw [htasks, Function.update_self]
        · exact fun hstatus => nomatch hstatus
        · exact fun hstatus => nomatch hstatus

theorem holds_set {call call' : Call} (hcall : s.calls[i]? = some call)
    (hanswers : ∀ lease, call'.answers lease = true → call.answers lease = true) {lease : WorkLease}
    (hholds : ({ s with calls := s.calls.set i call' } : Control).holds lease = true) :
    s.holds lease = true := by
  rcases holds_iff.mp hholds with hactive | ⟨other, hother, hother'⟩
  · exact held_active hactive
  · refine holds_iff.mpr (.inr ?_)
    rcases List.mem_or_eq_of_mem_set hother with hmem | rfl
    · exact ⟨other, hmem, hother'⟩
    · exact ⟨call, List.mem_of_getElem? hcall, hanswers lease hother'⟩

theorem held_set (h : Held s) (call' : Call) (hcall : s.calls[i]? = some call)
    (hanswers : ∀ lease, call'.answers lease = true → call.answers lease = true)
    (howes : call'.phase.owes = true → call'.settled = true ∧ call'.returned = false)
    (hreturned : call'.returned = true → call'.settled = true) :
    Held { s with calls := s.calls.set i call' } := by
  refine ⟨?_, ?_, ?_⟩
  · intro lease hlease hholds
    exact h.own lease hlease (holds_set hcall hanswers hholds)
  · intro other hother
    rcases List.mem_or_eq_of_mem_set hother with hmem | rfl
    · exact h.owes other hmem
    · exact howes
  · intro other hother
    rcases List.mem_or_eq_of_mem_set hother with hmem | rfl
    · exact h.returned other hmem
    · exact hreturned

theorem held_phase (h : Held s) (hcall : s.calls[i]? = some call) (hdone : call.phase ≠ .done)
    (phase : Phase) (howes : phase.owes = true → call.settled = true ∧ call.returned = false) :
    Held { s with calls := s.calls.set i { call with phase } } := by
  refine held_set h { call with phase } hcall ?_ howes ?_
  · intro lease hanswers
    obtain ⟨hlease, hsettled, hreturned, _⟩ := answers_iff.mp hanswers
    exact answers_iff.mpr ⟨hlease, hsettled, hreturned, hdone⟩
  · exact h.returned call (List.mem_of_getElem? hcall)

theorem held_settles (h : Held s) (ht : Tied s) {status : WorkLeaseStatus} (phase : Phase)
    {ended : QueueStore} (hcall : s.calls[i]? = some call)
    (hstatus : status = .completed ∨ status = .failed)
    (hended : s.queue.finishWorkLease call.lease status now = (ended, true)) :
    Held { s with queue := ended, calls := s.calls.set i { call with phase, settled := true } } := by
  obtain ⟨lease, hlease, hid, hactive, _, hleases, htasks⟩ := QueueStore.finishWorkLease_true hended
  have hmem := List.mem_of_getElem? hcall
  have hunsettled : call.settled = false := by
    by_contra hsettled
    exact ht.not_active hmem ((Bool.not_eq_false _).mp hsettled) hlease hid hactive
  rw [if_neg (by rcases hstatus with rfl | rfl <;> decide)] at htasks
  refine ⟨?_, ?_, ?_⟩
  · intro new hnew hholds
    change new ∈ ended.leases at hnew
    rw [hleases] at hnew
    obtain ⟨old, hold, rfl⟩ := List.mem_map.mp hnew
    have hfollows := QueueStore.follows_ite (old.id = call.lease ∧ old.status = .active ∧
        (if status = .expired then old.expiresAt ≤ now else now < old.expiresAt))
      (show _ → QueueStore.Follows old { old with status } from
        fun hended => ⟨rfl, rfl, .inr hended.2.1⟩)
    have hholdsOld : s.holds old = true := by
      rcases holds_iff.mp hholds with hnewActive | ⟨other, hother, hanswers⟩
      · exact held_active (hfollows.active hnewActive)
      · obtain ⟨hotherLease, hrest⟩ := answers_iff.mp hanswers
        rw [hfollows.id] at hotherLease
        rcases List.mem_or_eq_of_mem_set hother with hotherMem | rfl
        · exact holds_iff.mpr (.inr ⟨other, hotherMem, answers_iff.mpr ⟨hotherLease, hrest⟩⟩)
        · cases ht.unique hlease hold (hid.trans hotherLease)
          exact held_active hactive
    obtain ⟨task, htask, hown⟩ := h.own old hold hholdsOld
    refine ⟨task, ?_, ?_⟩
    · rw [hfollows.taskId]
      show ended.tasks old.taskId = some task
      rw [htasks, htask]
    · rw [hfollows.id]
      exact hown
  · intro other hother howes
    rcases List.mem_or_eq_of_mem_set hother with hotherMem | rfl
    · exact h.owes other hotherMem howes
    · refine ⟨rfl, ?_⟩
      by_contra hreturned
      have hsettled := h.returned call hmem ((Bool.not_eq_false _).mp hreturned)
      rw [hunsettled] at hsettled
      cases hsettled
  · intro other hother hreturned
    rcases List.mem_or_eq_of_mem_set hother with hotherMem | rfl
    · exact h.returned other hotherMem hreturned
    · rfl

theorem held_returns (h : Held s) (ht : Tied s) (hcall : s.calls[i]? = some call)
    (hphase : call.phase = .retrying) : Held { s with
      queue := s.queue.update call.task [.claimed, .failed] .submitted
      calls := s.calls.set i { call with phase := .requeued, returned := true } } := by
  have hmem := List.mem_of_getElem? hcall
  obtain ⟨hsettled, hnotReturned⟩ := h.owes call hmem (by rw [hphase]; rfl)
  obtain ⟨mine, hmine, hmineId, hmineTask, hended⟩ := ht.known call hmem
  have hmineHeld : s.holds mine = true :=
    holds_iff.mpr (.inr ⟨call, hmem, answers_iff.mpr
      ⟨hmineId.symm, hsettled, hnotReturned, by rw [hphase]; exact Phase.noConfusion⟩⟩)
  have hanswers : ∀ lease, ({ call with phase := .requeued, returned := true } : Call).answers
      lease = true → call.answers lease = true := by
    intro lease hanswers
    exact absurd (answers_iff.mp hanswers).2.2.1 Bool.noConfusion
  have hset := held_set h { call with phase := .requeued, returned := true } hcall hanswers
    (fun howes => nomatch howes) (fun _ => hsettled)
  refine held_tasks hset (s.queue.update call.task [.claimed, .failed] .submitted) rfl ?_
  intro lease hlease hholds
  refine own_updateWhere (hset.own lease hlease hholds) _ _ _ (.inr (.inl ?_))
  refine decide_eq_false fun htask => ?_
  -- the lease would be this call's, and nobody answers for that one any more
  cases h.single ht hlease hmine (holds_set hcall hanswers hholds) hmineHeld
    (htask.trans hmineTask.symm)
  rcases holds_iff.mp hholds with hactive | ⟨other, hother, hotherAnswers⟩
  · exact hended hsettled hactive
  · obtain ⟨hotherLease, hotherSettled, hotherReturned, _⟩ := answers_iff.mp hotherAnswers
    obtain ⟨j, hj⟩ := List.mem_iff_getElem?.mp hother
    by_cases hij : i = j
    · rw [← hij, List.getElem?_set_self (List.getElem?_eq_some_iff.mp hcall).1] at hj
      cases hj
      cases hotherReturned
    · rw [List.getElem?_set_ne hij] at hj
      exact hij (ht.settled_once i j call other hcall hj hsettled hotherSettled
        (hmineId.symm.trans hotherLease.symm))

theorem held_advanced {s' : Control} (h : Held s) (hqueue : s'.queue = s.queue)
    (hcalls : s'.calls = s.calls) : Held s' := by
  obtain ⟨hown, howes, hreturned⟩ := h
  refine ⟨?_, ?_, ?_⟩
  · intro lease hlease hholds
    rw [hqueue] at hlease ⊢
    rw [Control.holds, hcalls] at hholds
    exact hown lease hlease hholds
  · rw [hcalls]
    exact howes
  · rw [hcalls]
    exact hreturned

theorem completion_out (status : QueueStore.Completion) :
    status.status ≠ .submitted ∧ status.status ≠ .planned := by
  cases status <;> decide

theorem held_after (h : Held s) (ht : Tied s) {move : Move} {done : Advance}
    (hcall : s.calls[i]? = some call) (hok : InOrder s (.call i move now))
    (hdone : call.phase ≠ .done) (hstretch : Stretch s.queue call now move done) :
    Held (s.after i call done) := by
  have hmem := List.mem_of_getElem? hcall
  cases hstretch with
  | walks phase advanced howes =>
    refine held_advanced (held_phase h hcall hdone phase ?_) rfl rfl
    intro hphase
    rcases howes hphase with howes | ⟨rfl, hasks, hclaimed⟩
    · exact h.owes call hmem howes
    · simpa [InOrder, inOrder, hcall, hasks, hclaimed] using hok
  | settles status phase ended hstatus _ hended =>
    exact held_advanced (held_settles h ht phase hcall hstatus hended) rfl rfl
  | releases phase howes =>
    have hstore := held_finishWorkLease h ht call.lease .released (by decide) now
    refine held_advanced (held_phase hstore hcall hdone phase ?_) rfl rfl
    intro hphase
    exact absurd hphase (Bool.not_eq_true _ ▸ howes)
  | records status phase ended _ hphase hended =>
    obtain ⟨_, rfl⟩ := QueueStore.completeSubmittedTask_some hended
    have hstore := held_tasks h (s.queue.update call.task [.claimed] status.status) rfl
      fun lease hlease hholds => own_updateWhere (h.own lease hlease hholds) _ _ _
        (.inl (completion_out status))
    refine held_advanced (held_phase hstore hcall hdone phase ?_) rfl rfl
    intro howes
    exact absurd howes (Bool.not_eq_true _ ▸ hphase)
  | returns retried hphase hretried =>
    obtain ⟨_, rfl⟩ := QueueStore.retrySubmittedTask_some hretried
    exact held_advanced (held_returns h ht hcall hphase) rfl rfl

theorem held_update (h : Held s) (id : String) (among : List SubmittedTaskStatus)
    {status : SubmittedTaskStatus} (hstatus : status ≠ .submitted ∧ status ≠ .planned) :
    Held (s.store (s.queue.update id among status)) :=
  held_tasks h _ rfl fun lease hlease hholds =>
    own_updateWhere (h.own lease hlease hholds) _ _ _ (.inl hstatus)

theorem held_putBack (h : Held s) (id : String) (among : List SubmittedTaskStatus)
    (hfree : (s.queue.changes id among && s.held id) = false) :
    Held (s.store (s.queue.update id among .submitted)) := by
  refine held_tasks h _ rfl fun lease hlease hholds => ?_
  refine own_updateWhere (h.own lease hlease hholds) _ _ _ ?_
  by_cases hid : lease.taskId = id
  · refine .inr (.inr ?_)
    intro task htask hin
    have hheld : s.held id = true := by
      rw [Control.held, List.any_eq_true]
      exact ⟨lease, hlease, by simp [hid, hholds]⟩
    have hchanges : s.queue.changes id among = true := by
      rw [QueueStore.changes, ← hid, htask]
      simpa using hin
    rw [hheld, hchanges] at hfree
    cases hfree
  · exact .inr (.inl (decide_eq_false hid))

theorem held_submitTask (h : Held s) {id : String} (hid : s.queue.tasks id = none)
    (planOnly : Bool) (openTurns : List String) :
    Held (s.store (s.queue.submitTask id planOnly openTurns)) := by
  refine held_tasks h _ rfl fun lease hlease hholds => ?_
  have hown := own_updateWhere (h.own lease hlease hholds) (fun i => i ∈ openTurns) [.open]
    .integrated (.inl ⟨by decide, by decide⟩)
  obtain ⟨task, htask, hrest⟩ := hown
  refine ⟨task, ?_, hrest⟩
  have hne : lease.taskId ≠ id := by
    intro heq
    rw [heq] at htask
    simp [QueueStore.updateWhere, hid] at htask
  simp only [QueueStore.submitTask]
  rw [Function.update_of_ne hne]
  exact htask

theorem held_claimSubmittedTasks (h : Held s) (ids : List String) :
    Held (s.store (s.queue.claimSubmittedTasks ids)) := by
  refine held_tasks h _ rfl fun lease hlease hholds => ?_
  obtain ⟨task, htask, hsubmitted, hrest⟩ := h.own lease hlease hholds
  refine ⟨task, ?_, hsubmitted, hrest⟩
  simp [QueueStore.claimSubmittedTasks, htask, hsubmitted]

theorem held_begin (h : Held s) {lease task : String} :
    Held { s with calls := s.calls ++ [{ lease, task }] } := by
  refine ⟨?_, ?_, ?_⟩
  · intro other hother hholds
    refine h.own other hother ?_
    rcases holds_iff.mp hholds with hactive | ⟨call, hcall, hanswers⟩
    · exact held_active hactive
    · rcases List.mem_append.mp hcall with hcall | hcall
      · exact holds_iff.mpr (.inr ⟨call, hcall, hanswers⟩)
      · cases List.mem_singleton.mp hcall
        exact absurd (answers_iff.mp hanswers).2.1 Bool.noConfusion
  · intro call hcall howes
    rcases List.mem_append.mp hcall with hcall | hcall
    · exact h.owes call hcall howes
    · cases List.mem_singleton.mp hcall
      cases howes
  · intro call hcall hreturned
    rcases List.mem_append.mp hcall with hcall | hcall
    · exact h.returned call hcall hreturned
    · cases List.mem_singleton.mp hcall
      cases hreturned

end Invariant

/-- **Every step taken in order keeps each lease's task its own.** -/
theorem held_step (s : Control) (event : Event) (s' : Control) (h : Tied s ∧ Held s)
    (hok : InOrder s event) (hs : step s event = some s') : Tied s' ∧ Held s' := by
  obtain ⟨ht, h⟩ := h
  refine ⟨tied_step s event s' ht hs, ?_⟩
  cases event with
  | submitTask id planOnly openTurns =>
    obtain ⟨hid, hs⟩ := Option.ite_none_right_eq_some.mp hs
    cases hs
    exact held_submitTask h (Option.isNone_iff_eq_none.mp hid) planOnly openTurns
  | claimSubmittedTasks ids =>
    cases hs
    exact held_claimSubmittedTasks h ids
  | leaseNextTask now lease =>
    obtain ⟨_, hs⟩ := Option.ite_none_right_eq_some.mp hs
    cases hs
    exact held_leaseNextTask h ht
  | heartbeatWorkLease id heartbeatAt expiresAt =>
    cases hs
    simp only [QueueStore.heartbeatWorkLease]
    split
    · exact h
    · refine held_store h (f := fun _ => _) ?_ rfl ?_
      · intro lease
        exact QueueStore.follows_ite _ fun _ => ⟨rfl, rfl, .inl rfl⟩
      · intro lease hlease hholds _
        exact h.own lease hlease hholds
  | finishWorkLease id status finishedAt =>
    obtain ⟨hstatus, hs⟩ := Option.ite_none_left_eq_some.mp hs
    cases hs
    exact held_finishWorkLease h ht id status hstatus finishedAt
  | expireWorkLeases now =>
    cases hs
    exact held_expireWorkLeases h ht now
  | retrySubmittedTask id =>
    cases hs
    rw [QueueStore.retrySubmittedTask, QueueStore.getD_update]
    exact held_putBack h id _ (Bool.not_eq_true' _ ▸ hok)
  | cancelSubmittedTask id =>
    cases hs
    rw [QueueStore.cancelSubmittedTask, QueueStore.getD_update]
    exact held_update h id _ ⟨by decide, by decide⟩
  | pauseSubmittedTask id =>
    cases hs
    rw [QueueStore.pauseSubmittedTask, QueueStore.getD_update]
    exact held_update h id _ ⟨by decide, by decide⟩
  | resumePausedTask id =>
    cases hs
    rw [QueueStore.resumePausedTask, QueueStore.getD_update]
    exact held_putBack h id _ (Bool.not_eq_true' _ ▸ hok)
  | releasePlannedTask id =>
    cases hs
    rw [QueueStore.releasePlannedTask, QueueStore.getD_update]
    refine held_tasks h _ rfl fun lease hlease hholds => ?_
    have hown := h.own lease hlease hholds
    refine own_updateWhere hown _ _ _ (.inr (.inr ?_))
    obtain ⟨task, htask, _, hplanned, _⟩ := hown
    intro other hother
    rw [htask] at hother
    cases hother
    simpa using hplanned
  | completeSubmittedTask id status =>
    cases hs
    rw [QueueStore.completeSubmittedTask, QueueStore.getD_update]
    exact held_update h id _ (completion_out status)
  | openSubmittedTask id =>
    cases hs
    rw [QueueStore.openSubmittedTask, QueueStore.getD_update]
    exact held_update h id _ ⟨by decide, by decide⟩
  | expireOpenTasks ids =>
    cases hs
    exact held_tasks h _ rfl fun lease hlease hholds =>
      own_updateWhere (h.own lease hlease hholds) _ _ _ (.inl ⟨by decide, by decide⟩)
  | begin leaseId now =>
    simp only [step] at hs
    split at hs
    · split at hs
      · cases hs
        exact held_begin h
      · cases hs
        exact h
    · cases hs
      exact h
  | call i move now =>
    obtain ⟨call, done, hcall, hdone, rfl⟩ := step_call hs
    obtain ⟨hphase, hstretch⟩ := advance_cases hdone
    exact held_after h ht hcall hok hphase hstretch

/-! ## One executor -/

section OneExecutor

variable {s : Control}

variable {taskId : String} {task : SubmittedTask}

theorem Held.submitted_free (h : Held s) (htask : s.queue.tasks taskId = some task)
    (hstatus : task.status = .submitted) : s.queue.leased taskId = false := by
  by_contra hleased
  obtain ⟨lease, hlease, hactive, hid⟩ :=
    QueueStore.leased_iff.mp ((Bool.not_eq_false _).mp hleased)
  have hfree := h.not_held htask hstatus hlease hid
  exact Bool.false_ne_true (hfree.symm.trans (held_active hactive))

theorem length_le_one {α : Type} {xs : List α} (h : xs.Nodup)
    (hall : ∀ a ∈ xs, ∀ b ∈ xs, a = b) : xs.length ≤ 1 := by
  cases xs with
  | nil => exact Nat.zero_le 1
  | cons a xs =>
    cases xs with
    | nil => exact Nat.le_refl 1
    | cons b rest =>
      have hab := hall a List.mem_cons_self b (List.mem_cons_of_mem a List.mem_cons_self)
      exact absurd (hab ▸ List.mem_cons_self) (List.nodup_cons.mp h).1

theorem Held.one_active (h : Held s) (ht : Tied s) (taskId : String) :
    (s.queue.leases.filter fun lease =>
      lease.status = .active && lease.taskId = taskId).length ≤ 1 := by
  refine length_le_one ((List.Nodup.of_map _ ht.distinct).filter _) ?_
  intro a ha b hb
  simp only [List.mem_filter, Bool.and_eq_true, decide_eq_true_eq] at ha hb
  exact h.single ht ha.1 hb.1 (held_active ha.2.1) (held_active hb.2.1) (ha.2.2.trans hb.2.2.symm)

theorem statusOf_updateWhere (queue : QueueStore) (ids : String → Bool)
    (among : List SubmittedTaskStatus) (status : SubmittedTaskStatus) (taskId : String) :
    statusOf (queue.updateWhere ids among status) taskId = statusOf queue taskId ∨
      (ids taskId = true ∧ (∃ old ∈ among, statusOf queue taskId = some old) ∧
        statusOf (queue.updateWhere ids among status) taskId = some status) := by
  cases htask : queue.tasks taskId with
  | none => exact .inl (by simp [statusOf, QueueStore.updateWhere, htask])
  | some task =>
    by_cases hid : ids taskId = true
    · by_cases hin : task.status ∈ among
      · refine .inr ⟨hid, ⟨task.status, hin, by rw [statusOf, htask]; rfl⟩, ?_⟩
        simp [statusOf, QueueStore.updateWhere, htask, hid, QueueStore.move, hin]
      · exact .inl (by simp [statusOf, QueueStore.updateWhere, htask, hid, QueueStore.move, hin])
    · exact .inl (by simp [statusOf, QueueStore.updateWhere, htask, hid])

theorem updated_of_changed {queue : QueueStore} {ids : String → Bool}
    {among : List SubmittedTaskStatus} {status : SubmittedTaskStatus}
    (htask : queue.tasks taskId = some task)
    (hchanged : statusOf (queue.updateWhere ids among status) taskId ≠ some task.status) :
    ids taskId = true := by
  rcases statusOf_updateWhere queue ids among status taskId with hsame | ⟨hid, _⟩
  · exact absurd (hsame.trans (by rw [statusOf, htask]; rfl)) hchanged
  · exact hid

theorem Held.finish_own (h : Held s) (id : String) (status : WorkLeaseStatus) (finishedAt : Int)
    (htask : s.queue.tasks taskId = some task)
    (hchanged : statusOf (s.queue.finishWorkLease id status finishedAt).1 taskId ≠
      some task.status) : task.claimedUnder = some id := by
  cases hfinish : s.queue.finishWorkLease id status finishedAt with
  | mk ended done =>
    rw [hfinish] at hchanged
    cases done with
    | false =>
      rw [QueueStore.finishWorkLease_false hfinish] at hchanged
      exact absurd (by rw [statusOf, htask]; rfl) hchanged
    | true =>
      obtain ⟨lease, hlease, hid, hactive, _, _, htasks⟩ := QueueStore.finishWorkLease_true hfinish
      rw [statusOf, htasks] at hchanged
      split at hchanged
      · have hmine : lease.taskId = taskId := by
          simpa using (of_decide_eq_true (updated_of_changed htask hchanged)).symm
        obtain ⟨own, hown, _, _, hunder⟩ := h.own lease hlease (held_active hactive)
        rw [hmine, htask] at hown
        cases hown
        rw [hunder, hid]
      · exact absurd (by rw [htask]; rfl) hchanged

theorem Held.call_own (h : Held s) (ht : Tied s) {call : Call} (hcall : call ∈ s.calls)
    (howes : call.phase.owes = true) (htask : s.queue.tasks call.task = some task) :
    task.claimedUnder = some call.lease := by
  obtain ⟨hsettled, hreturned⟩ := h.owes call hcall howes
  obtain ⟨lease, hlease, hid, htaskId, _⟩ := ht.known call hcall
  have hholds : s.holds lease = true := by
    refine holds_iff.mpr (.inr ⟨call, hcall, answers_iff.mpr ⟨hid.symm, hsettled, hreturned, ?_⟩⟩)
    intro hdone
    rw [hdone] at howes
    cases howes
  obtain ⟨own, hown, _, _, hunder⟩ := h.own lease hlease hholds
  rw [htaskId, htask] at hown
  cases hown
  rw [hunder, hid]

theorem Held.stretch_own (h : Held s) (ht : Tied s) {call : Call} (hcall : call ∈ s.calls)
    {now : Int} {move : Move} {done : Advance} (hstretch : Stretch s.queue call now move done)
    (htask : s.queue.tasks taskId = some task)
    (hchanged : statusOf done.queue taskId ≠ some task.status) :
    task.claimedUnder = some call.lease := by
  cases hstretch with
  | walks => exact absurd (by rw [statusOf, htask]; rfl) hchanged
  | settles status phase ended _ _ hended =>
    refine h.finish_own call.lease status now htask ?_
    rw [hended]
    exact hchanged
  | releases phase _ => exact h.finish_own call.lease .released now htask hchanged
  | records status phase ended hending _ hended =>
    obtain ⟨_, rfl⟩ := QueueStore.completeSubmittedTask_some hended
    cases of_decide_eq_true (updated_of_changed htask hchanged)
    exact h.call_own ht hcall (owes_of_ending hending) htask
  | returns retried hphase hretried =>
    obtain ⟨_, rfl⟩ := QueueStore.retrySubmittedTask_some hretried
    cases of_decide_eq_true (updated_of_changed htask hchanged)
    exact h.call_own ht hcall (by rw [hphase]; rfl) htask

theorem Held.oneExecutor (h : Held s) (ht : Tied s) : OneExecutor s := by
  refine ⟨h.one_active ht, fun _ _ => h.submitted_free, ?_, ?_, ?_⟩
  · intro now lease
    exact QueueStore.leaseNextTask_isSome fun task htask hsubmitted =>
      (held_expireWorkLeases h ht now).submitted_free htask hsubmitted
  · intro event s' leaseId hs hbehalf taskId task htask hchanged
    cases event with
    | call i move now =>
      obtain ⟨call, done, hcall, hdone, rfl⟩ := step_call hs
      obtain ⟨other, hother, rfl⟩ := hbehalf
      rw [hcall] at hother
      cases hother
      exact h.stretch_own ht (List.mem_of_getElem? hcall) (advance_cases hdone).2 htask hchanged
    | finishWorkLease id status finishedAt =>
      obtain ⟨_, hs⟩ := Option.ite_none_left_eq_some.mp hs
      cases hs
      cases hbehalf
      exact h.finish_own _ status finishedAt htask hchanged
    | _ => exact hbehalf.elim
  · intro now taskId task htask hchanged
    obtain ⟨lease, hlease, hactive, hlapsed, hid⟩ :=
      QueueStore.lapsed_iff.mp (updated_of_changed htask hchanged)
    obtain ⟨own, hown, _, _, hunder⟩ := h.own lease hlease (held_active hactive)
    rw [hid, htask] at hown
    cases hown
    exact ⟨lease, hlease, hactive, hlapsed, hunder⟩

end OneExecutor

/-- **A task has one executor**, in every state that a run in order reaches. -/
theorem one_executor {events : List Event} {s : Control} (h : Throughout step InOrder {} events)
    (hs : run step {} events = some s) : OneExecutor s := by
  obtain ⟨ht, hheld⟩ := run_invariant held_step ⟨tied_init, held_init⟩ h hs
  exact hheld.oneExecutor ht

/-- A lease on the task `t`. -/
def leaseOn (id : String) (expiresAt : Int) : WorkLease where
  id := id
  taskId := "t"
  repositoryId := "r"
  status := .active
  baseRevision := "b"
  expiresAt := expiresAt

/-- A lease that lapses while nothing is under way, a second one whose result is
integrated. -/
def handedOnAndIntegrated : List Event :=
  [.submitTask "t" false [], .leaseNextTask 0 (leaseOn "L1" 10), .leaseNextTask 20 (leaseOn "L2" 30),
    .begin "L2" 21, .call 0 .read 21, .call 0 .run 22, .call 0 .settle 23,
    .call 0 (.integrate .integrated) 24, .call 0 .record 25, .call 0 .finish 26]

theorem one_executor_integrated :
    ∃ s, run step {} handedOnAndIntegrated = some s ∧ OneExecutor s := by
  obtain ⟨s, hs⟩ := Option.isSome_iff_exists.mp
    (show (run step {} handedOnAndIntegrated).isSome = true by decide)
  exact ⟨s, hs, one_executor (by decide) hs⟩

/-- The result of the first lease is under review when it lapses and the second is
taken; the call then finds canonical moved, its lease ended and the task claimed. -/
def lapsedUnderReview : List Event :=
  [.submitTask "t" false [], .leaseNextTask 0 (leaseOn "L1" 10), .begin "L1" 1, .call 0 .read 1,
    .call 0 .run 2, .leaseNextTask 20 (leaseOn "L2" 30), .call 0 .requeue 21, .call 0 .read 22,
    .call 0 .read 23, .call 0 .requeue 24]

/-- The task, whether it is leased, and whether another lease could be taken. -/
def afterLapse (s : Control) : Option SubmittedTask × Bool × Bool :=
  (s.queue.tasks "t", s.queue.leased "t", (s.queue.leaseNextTask 25 (leaseOn "L3" 40)).isSome)

/-- The task is queued under the second lease, which is active. -/
theorem second_executor :
    (run step {} lapsedUnderReview).map afterLapse =
        some (some ⟨.submitted, some "L2"⟩, true, false) ∧
      ¬ ∀ events s, run step {} events = some s → OneExecutor s := by
  have hrun : (run step {} lapsedUnderReview).map afterLapse =
      some (some ⟨.submitted, some "L2"⟩, true, false) := by decide
  refine ⟨hrun, fun hall => ?_⟩
  obtain ⟨s, hs, hafter⟩ := Option.map_eq_some_iff.mp hrun
  simp only [afterLapse, Prod.mk.injEq] at hafter
  obtain ⟨htask, hleased, _⟩ := hafter
  have hfree := (hall lapsedUnderReview s hs).submitted_free "t" _ htask rfl
  rw [hleased] at hfree
  cases hfree

end AgenticGit.Cli.ResultCalls
