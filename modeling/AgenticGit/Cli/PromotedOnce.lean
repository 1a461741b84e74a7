import AgenticGit.Cli.OneExecutor

/- A result is promoted at most once and recorded as what happened, over the runs of
   `ResultCalls`.

   What is proved:
     1. `promoted_once` — in every run, a call integrates only after it moved its lease
        from active to completed, so no other call of that lease does, and writes
        `integrated` only for what canonical has, for an empty result or for an answer.
        When nothing throws between the promotion and the task's ending, and the steps
        are in order, what canonical has is never marked failed and never queued
        again.
     2. `promoted_and_failed` — the write of the integration record throws, and the
        `catch` fails a task that canonical has. -/
namespace AgenticGit.Cli.ResultCalls
open AgenticGit.Runs AgenticGit.Persistence

/-! ## What is promised -/

/-- Whether the call is about to record a result without changes: an empty integration
or an answered question. -/
def Phase.reports : Phase → Bool
  | .integrated .empty => true
  | .completing .integrated => true
  | _ => false

/-- A result is promoted once. -/
structure PromotedOnce (s : Control) : Prop where
  /-- A call inside the integration has settled its lease, which is completed. -/
  settled : ∀ call ∈ s.calls, call.phase.integrates = true → call.settled = true ∧
    ∃ lease ∈ s.queue.leases, lease.id = call.lease ∧ lease.status = .completed
  /-- No two calls of one lease are, or were, inside it. -/
  one_call : ∀ (i j : Nat) (a b : Call), s.calls[i]? = some a → s.calls[j]? = some b →
    a.lease = b.lease → a.phase.integrates = true → b.settled = true → i = j
  /-- `integrated` is written for what canonical has, or for a report. -/
  recorded : ∀ i move now s' call, step s (.call i move now) = some s' →
    s.calls[i]? = some call → ∀ taskId, statusOf s'.queue taskId = some .integrated →
      statusOf s.queue taskId = some .integrated ∨ call.lease ∈ s.advanced ∨
        call.phase.reports = true

/-- What canonical has is not marked failed, and not queued again, on behalf of its
lease. -/
def RecordedAsPromoted (s : Control) : Prop :=
  ∀ leaseId ∈ s.advanced, ∀ event s', step s event = some s' → event.onBehalfOf s leaseId →
    ∀ taskId, statusOf s'.queue taskId = some .failed ∨
      statusOf s'.queue taskId = some .submitted →
        statusOf s'.queue taskId = statusOf s.queue taskId

/-- In order, and nothing throws between the promotion and the ending of a task that
is still claimed. -/
def unbroken (s : Control) (event : Event) : Bool :=
  inOrder s event &&
    match event with
    | .call i .throws _ =>
      (s.calls[i]?).all fun call =>
        !(call.phase = .integrated .integrated && taskClaimed s.queue call.task)
    | .call i .throwsPromoted _ =>
      (s.calls[i]?).all fun call => !taskClaimed s.queue call.task
    | _ => true

def Unbroken (s : Control) (event : Event) : Prop := unbroken s event = true

instance (s : Control) : DecidablePred (Unbroken s) := fun event =>
  inferInstanceAs (Decidable (unbroken s event = true))

/-! ## Inside the integration -/

/-- A call inside the integration has completed its lease; what it has been answered
as integrated is known as canonical's. -/
structure Inside (s : Control) : Prop where
  settled : ∀ call ∈ s.calls, call.phase.integrates = true → call.settled = true ∧
    ∃ lease ∈ s.queue.leases, lease.id = call.lease ∧ lease.status = .completed
  advanced : ∀ call ∈ s.calls, call.phase = .integrated .integrated → call.lease ∈ s.advanced

theorem inside_init : Inside {} where
  settled _ hcall := absurd hcall List.not_mem_nil
  advanced _ hcall := absurd hcall List.not_mem_nil

section Inside

variable {s : Control}

theorem completed_later {queue queue' : QueueStore} (hlater : queue.Later queue') {id : String}
    (h : ∃ lease ∈ queue.leases, lease.id = id ∧ lease.status = .completed) :
    ∃ lease ∈ queue'.leases, lease.id = id ∧ lease.status = .completed := by
  obtain ⟨f, hf, hleases⟩ := hlater
  obtain ⟨lease, hlease, hid, hcompleted⟩ := h
  refine ⟨f lease, hleases ▸ List.mem_map_of_mem hlease, (hf lease).id.trans hid, ?_⟩
  rcases (hf lease).status with hsame | hactive
  · rw [hsame, hcompleted]
  · rw [hcompleted] at hactive
    cases hactive

theorem inside_store (h : Inside s) {queue : QueueStore} (hlater : s.queue.Later queue) :
    Inside (s.store queue) := by
  refine ⟨?_, h.advanced⟩
  intro call hcall hintegrates
  obtain ⟨hsettled, hcompleted⟩ := h.settled call hcall hintegrates
  exact ⟨hsettled, completed_later hlater hcompleted⟩

theorem inside_leaseNextTask (h : Inside s) (now : Int) (lease : WorkLease) :
    Inside (s.store ((s.queue.leaseNextTask now lease).getD s.queue)) := by
  cases hnext : s.queue.leaseNextTask now lease with
  | none => exact h
  | some queue =>
    have hexpired := inside_store h (QueueStore.later_expireWorkLeases s.queue now)
    rcases QueueStore.leaseNextTask_cases hnext with rfl | ⟨_, _, _, _, _, hleases⟩
    · exact hexpired
    · refine ⟨?_, h.advanced⟩
      intro call hcall hintegrates
      obtain ⟨hsettled, known, hknown, hrest⟩ := hexpired.settled call hcall hintegrates
      refine ⟨hsettled, known, ?_, hrest⟩
      show known ∈ queue.leases
      rw [hleases]
      exact List.mem_append_left _ hknown

theorem inside_begin (h : Inside s) {lease task : String} :
    Inside { s with calls := s.calls ++ [{ lease, task }] } := by
  refine ⟨?_, ?_⟩
  · intro call hcall hintegrates
    rcases List.mem_append.mp hcall with hcall | hcall
    · exact h.settled call hcall hintegrates
    · cases List.mem_singleton.mp hcall
      cases hintegrates
  · intro call hcall hphase
    rcases List.mem_append.mp hcall with hcall | hcall
    · exact h.advanced call hcall hphase
    · cases List.mem_singleton.mp hcall
      cases hphase

theorem inside_set (h : Inside s) {i : Nat} {call' : Call}
    (hout : call'.phase.integrates = false) : Inside { s with calls := s.calls.set i call' } := by
  refine ⟨?_, ?_⟩
  · intro other hother hintegrates
    rcases List.mem_or_eq_of_mem_set hother with hother | rfl
    · exact h.settled other hother hintegrates
    · rw [hout] at hintegrates
      cases hintegrates
  · intro other hother hphase
    rcases List.mem_or_eq_of_mem_set hother with hother | rfl
    · exact h.advanced other hother hphase
    · rw [hphase] at hout
      cases hout

theorem inside_advanced {s' : Control} (h : Inside s) (hqueue : s'.queue = s.queue)
    (hcalls : s'.calls = s.calls) (hadvanced : s.advanced ⊆ s'.advanced) : Inside s' := by
  obtain ⟨hsettled, hknown⟩ := h
  refine ⟨?_, ?_⟩
  · rw [hqueue, hcalls]
    exact hsettled
  · rw [hcalls]
    exact fun call hcall hphase => hadvanced (hknown call hcall hphase)

theorem integrates_of_owes {phase : Phase} (h : phase.owes = false) : phase.integrates = false := by
  cases phase <;> first | rfl | cases h

theorem inside_after (h : Inside s) {i : Nat} {call : Call} {now : Int} {move : Move}
    {done : Advance} (hcall : s.calls[i]? = some call)
    (hstretch : Stretch s.queue call now move done) : Inside (s.after i call done) := by
  have hmem := List.mem_of_getElem? hcall
  cases hstretch with
  | walks phase advanced _ hintegrates hadvanced _ =>
    have hsubset : s.advanced ⊆ if advanced = true then s.advanced ++ [call.lease] else s.advanced := by
      split
      · exact List.subset_append_left _ _
      · exact List.Subset.refl _
    refine ⟨?_, ?_⟩
    · intro other hother hphase
      rcases List.mem_or_eq_of_mem_set hother with hother | rfl
      · exact h.settled other hother hphase
      · exact h.settled call hmem (hintegrates hphase)
    · intro other hother hphase
      rcases List.mem_or_eq_of_mem_set hother with hother | rfl
      · exact hsubset (h.advanced other hother hphase)
      · show call.lease ∈ if advanced = true then s.advanced ++ [call.lease] else s.advanced
        rw [if_pos (hadvanced hphase)]
        exact List.mem_append_right _ List.mem_cons_self
  | settles status phase ended _ hintegrates hended =>
    have hlater := QueueStore.later_finishWorkLease s.queue call.lease status now
    rw [hended] at hlater
    have hstore := inside_store h hlater
    refine ⟨?_, ?_⟩
    · intro other hother hphase
      rcases List.mem_or_eq_of_mem_set hother with hother | rfl
      · exact hstore.settled other hother hphase
      · obtain ⟨_, rfl⟩ := hintegrates hphase
        exact ⟨rfl, QueueStore.finishWorkLease_ended hended⟩
    · intro other hother hphase
      rcases List.mem_or_eq_of_mem_set hother with hother | rfl
      · exact hstore.advanced other hother hphase
      · change phase = _ at hphase
        obtain ⟨hintegrating, _⟩ := hintegrates (show phase.integrates = true by rw [hphase]; rfl)
        rw [hphase] at hintegrating
        cases hintegrating
  | releases phase howes =>
    have hstore :=
      inside_store h (QueueStore.later_finishWorkLease s.queue call.lease .released now)
    exact inside_advanced (inside_set hstore (integrates_of_owes howes)) rfl rfl
      (List.Subset.refl _)
  | records status phase ended _ hphase hended =>
    obtain ⟨_, rfl⟩ := QueueStore.completeSubmittedTask_some hended
    have hstore := inside_store h (QueueStore.later_update s.queue call.task [.claimed] status.status)
    exact inside_advanced (inside_set hstore (integrates_of_owes hphase)) rfl rfl
      (List.Subset.refl _)
  | returns retried _ hretried =>
    obtain ⟨_, rfl⟩ := QueueStore.retrySubmittedTask_some hretried
    have hstore :=
      inside_store h (QueueStore.later_update s.queue call.task [.claimed, .failed] .submitted)
    exact inside_advanced (inside_set hstore rfl) rfl rfl (List.Subset.refl _)

theorem inside_step (s : Control) (event : Event) (s' : Control) (h : Inside s)
    (hs : step s event = some s') : Inside s' := by
  cases step_cases hs with
  | store queue hlater => exact inside_store h hlater
  | leases now lease _ => exact inside_leaseNextTask h now lease
  | begins lease _ => exact inside_begin h
  | calls i move now call done hcall hdone => exact inside_after h hcall (advance_cases hdone).2

theorem statusOf_finishWorkLease (queue : QueueStore) (id : String) (status : WorkLeaseStatus)
    (finishedAt : Int) (taskId : String) :
    statusOf (queue.finishWorkLease id status finishedAt).1 taskId = statusOf queue taskId ∨
      ((∃ lease ∈ queue.leases, lease.id = id ∧ lease.status = .active) ∧
        statusOf (queue.finishWorkLease id status finishedAt).1 taskId = some .submitted) := by
  cases hfinish : queue.finishWorkLease id status finishedAt with
  | mk ended done =>
    cases done with
    | false => exact .inl (by rw [QueueStore.finishWorkLease_false hfinish])
    | true =>
      obtain ⟨lease, hlease, hid, hactive, _, _, htasks⟩ := QueueStore.finishWorkLease_true hfinish
      rw [statusOf, htasks]
      split
      · rcases statusOf_updateWhere queue _ _ _ taskId with hsame | ⟨_, _, hsubmitted⟩
        · exact .inl hsame
        · exact .inr ⟨⟨lease, hlease, hid, hactive⟩, hsubmitted⟩
      · exact .inl rfl

theorem stretch_integrated {call : Call} {now : Int} {move : Move} {done : Advance}
    (hstretch : Stretch s.queue call now move done) {taskId : String}
    (hafter : statusOf done.queue taskId = some .integrated)
    (hbefore : statusOf s.queue taskId ≠ some .integrated) :
    call.phase.ending = some .integrated := by
  cases hstretch with
  | walks => exact absurd hafter hbefore
  | settles status phase ended _ _ hended =>
    have hcases := statusOf_finishWorkLease s.queue call.lease status now taskId
    rw [hended] at hcases
    rcases hcases with hsame | ⟨_, hsubmitted⟩
    · exact absurd (hsame.symm.trans hafter) hbefore
    · rw [hsubmitted] at hafter
      cases hafter
  | releases phase _ =>
    rcases statusOf_finishWorkLease s.queue call.lease .released now taskId with
      hsame | ⟨_, hsubmitted⟩
    · exact absurd (hsame.symm.trans hafter) hbefore
    · rw [hsubmitted] at hafter
      cases hafter
  | records status phase ended hending _ hended =>
    obtain ⟨_, rfl⟩ := QueueStore.completeSubmittedTask_some hended
    rcases statusOf_updateWhere s.queue _ _ _ taskId with hsame | ⟨_, _, hstatus⟩
    · exact absurd (hsame.symm.trans hafter) hbefore
    · rw [hending]
      have heq := hstatus.symm.trans hafter
      cases status with
      | integrated => rfl
      | failed => cases heq
      | cancelled => cases heq
  | returns retried _ hretried =>
    obtain ⟨_, rfl⟩ := QueueStore.retrySubmittedTask_some hretried
    rcases statusOf_updateWhere s.queue _ _ _ taskId with hsame | ⟨_, _, hstatus⟩
    · exact absurd (hsame.symm.trans hafter) hbefore
    · have heq := hstatus.symm.trans hafter
      cases heq

theorem promoted_or_reports {phase : Phase} (h : phase.ending = some .integrated) :
    phase = .integrated .integrated ∨ phase.reports = true := by
  cases phase with
  | integrated status =>
    cases status with
    | integrated => exact .inl rfl
    | empty => exact .inr rfl
    | _ => cases h
  | completing status =>
    cases h
    exact .inr rfl
  | _ => cases h

/-- **A result is promoted once.** -/
theorem Inside.promotedOnce (h : Inside s) (ht : Tied s) : PromotedOnce s := by
  refine ⟨h.settled, ?_, ?_⟩
  · intro i j a b ha hb hlease hintegrates hsettled
    have haSettled := (h.settled a (List.mem_of_getElem? ha) hintegrates).1
    exact ht.settled_once i j a b ha hb haSettled hsettled hlease
  · intro i move now s' call hs hcall taskId hafter
    obtain ⟨other, done, hother, hdone, rfl⟩ := step_call hs
    rw [hcall] at hother
    cases hother
    by_cases hbefore : statusOf s.queue taskId = some .integrated
    · exact .inl hbefore
    · refine .inr ?_
      have hending := stretch_integrated (advance_cases hdone).2 hafter hbefore
      rcases promoted_or_reports hending with hphase | hreports
      · exact .inl (h.advanced call (List.mem_of_getElem? hcall) hphase)
      · exact .inr hreports

end Inside

/-! ## From the promotion to the end -/

/-- Whether the call only has its end before it, when its task is not claimed. -/
def Phase.closing : Phase → Bool
  | .recorded => true
  | .catching => true
  | .failing => true
  | _ => false

theorem not_owes_of_closing {phase : Phase} (h : phase.closing = true) : phase.owes = false := by
  cases phase <;> first | rfl | cases h

/-- A call whose result canonical has is about to write the task's ending, or has none
to write. -/
def Settles (queue : QueueStore) (call : Call) : Prop :=
  call.phase = .integrated .integrated ∨
    (call.phase.closing = true ∧ taskClaimed queue call.task = false) ∨ call.phase = .done

/-- Each result canonical has is in the hands of the call that settled its lease. -/
def Settling (s : Control) : Prop :=
  ∀ leaseId ∈ s.advanced, ∃ (i : Nat) (call : Call), s.calls[i]? = some call ∧
    call.lease = leaseId ∧ call.settled = true ∧ call.returned = false ∧ Settles s.queue call

section Settling

variable {s : Control}

variable {queue : QueueStore} {taskId : String} {among : List SubmittedTaskStatus}
  {status : SubmittedTaskStatus} {call : Call} {now : Int} {move : Move} {done : Advance}
  {event : Event} {s' : Control}

theorem taskClaimed_iff :
    taskClaimed queue taskId = true ↔ statusOf queue taskId = some .claimed := by
  cases htask : queue.tasks taskId with
  | none => simp [taskClaimed, QueueStore.changes, statusOf, htask]
  | some task => simp [taskClaimed, QueueStore.changes, statusOf, htask]

theorem claimed_updateWhere {ids : String → Bool} (hstatus : status ≠ .claimed)
    (h : statusOf (queue.updateWhere ids among status) taskId = some .claimed) :
    statusOf queue taskId = some .claimed := by
  rcases statusOf_updateWhere queue ids among status taskId with hsame | ⟨_, _, hnew⟩
  · exact hsame.symm.trans h
  · exact absurd (Option.some.inj (hnew.symm.trans h)) hstatus

theorem unclaimed_update {id : String} (hamong : .claimed ∈ among) (hstatus : status ≠ .claimed) :
    taskClaimed (queue.update id among status) id = false := by
  refine Bool.eq_false_iff.mpr fun hclaimed => ?_
  have hbefore := claimed_updateWhere hstatus (taskClaimed_iff.mp hclaimed)
  cases htask : queue.tasks id with
  | none => simp [statusOf, htask] at hbefore
  | some task =>
    have hold : task.status = .claimed := by simpa [statusOf, htask] using hbefore
    have hin : task.status ∈ among := hold ▸ hamong
    simp [taskClaimed, QueueStore.changes, QueueStore.update, QueueStore.updateWhere, htask,
      QueueStore.move, hin, hstatus] at hclaimed

theorem claimed_finishWorkLease (id : String) (status : WorkLeaseStatus) (finishedAt : Int)
    (h : statusOf (queue.finishWorkLease id status finishedAt).1 taskId = some .claimed) :
    statusOf queue taskId = some .claimed := by
  rcases statusOf_finishWorkLease queue id status finishedAt taskId with hsame | ⟨_, hnew⟩
  · exact hsame.symm.trans h
  · rw [hnew] at h
    cases h

theorem claimed_stretch (hstretch : Stretch s.queue call now move done)
    (h : statusOf done.queue taskId = some .claimed) : statusOf s.queue taskId = some .claimed := by
  cases hstretch with
  | walks => exact h
  | settles status phase ended _ _ hended =>
    refine claimed_finishWorkLease call.lease status now ?_
    rw [hended]
    exact h
  | releases phase _ => exact claimed_finishWorkLease call.lease .released now h
  | records status phase ended _ _ hended =>
    obtain ⟨_, rfl⟩ := QueueStore.completeSubmittedTask_some hended
    exact claimed_updateWhere (by cases status <;> decide) h
  | returns retried _ hretried =>
    obtain ⟨_, rfl⟩ := QueueStore.retrySubmittedTask_some hretried
    exact claimed_updateWhere (by decide) h

theorem claimed_leaseNextTask {queue queue' : QueueStore} {lease : WorkLease}
    (hnext : queue.leaseNextTask now lease = some queue')
    (h : statusOf queue' taskId = some .claimed) :
    statusOf queue taskId = some .claimed ∨ statusOf queue taskId = some .submitted := by
  rcases QueueStore.leaseNextTask_cases hnext with rfl | ⟨task, htask, hqueued, _, htasks, _⟩
  · exact .inl (claimed_updateWhere (by decide) h)
  · by_cases hid : taskId = lease.taskId
    · have hexpired : statusOf (queue.expireWorkLeases now) taskId = some .submitted := by
        rw [hid, statusOf, htask, ← hqueued]
        rfl
      -- queued before, or put back by the expiry
      rcases statusOf_updateWhere queue (queue.lapsed now) [.claimed] .submitted taskId with
        hsame | ⟨_, ⟨old, hold, hbefore⟩, _⟩
      · exact .inr (hsame.symm.trans hexpired)
      · rw [List.mem_singleton.mp hold] at hbefore
        exact .inl hbefore
    · rw [statusOf, htasks, Function.update_of_ne hid] at h
      exact .inl (claimed_updateWhere (by decide) h)

theorem claimed_step (hs : step s event = some s') (h : statusOf s'.queue taskId = some .claimed) :
    statusOf s.queue taskId = some .claimed ∨ statusOf s.queue taskId = some .submitted := by
  cases event with
  | submitTask id planOnly openTurns =>
    obtain ⟨_, hs⟩ := Option.ite_none_right_eq_some.mp hs
    cases hs
    by_cases hid : taskId = id
    · cases hid
      simp only [Control.store, QueueStore.submitTask, statusOf, Function.update_self] at h
      cases planOnly <;> cases h
    · simp only [Control.store, QueueStore.submitTask, statusOf, Function.update_of_ne hid] at h
      exact .inl (claimed_updateWhere (by decide) h)
  | claimSubmittedTasks ids =>
    cases hs
    cases htask : s.queue.tasks taskId with
    | none => simp [Control.store, QueueStore.claimSubmittedTasks, statusOf, htask] at h
    | some task =>
      simp only [Control.store, QueueStore.claimSubmittedTasks, statusOf, htask,
        Option.map_some] at h ⊢
      split at h
      · rename_i hqueued
        exact .inr (by rw [hqueued.2])
      · exact .inl h
  | leaseNextTask now lease =>
    obtain ⟨_, hs⟩ := Option.ite_none_right_eq_some.mp hs
    cases hs
    cases hnext : s.queue.leaseNextTask now lease with
    | none =>
      rw [hnext] at h
      exact .inl h
    | some queue =>
      rw [hnext] at h
      exact claimed_leaseNextTask hnext h
  | heartbeatWorkLease id heartbeatAt expiresAt =>
    cases hs
    simp only [Control.store, QueueStore.heartbeatWorkLease] at h
    split at h
    · exact .inl h
    · exact .inl h
  | finishWorkLease id status finishedAt =>
    obtain ⟨_, hs⟩ := Option.ite_none_left_eq_some.mp hs
    cases hs
    exact .inl (claimed_finishWorkLease id status finishedAt h)
  | expireWorkLeases now =>
    cases hs
    exact .inl (claimed_updateWhere (by decide) h)
  | retrySubmittedTask id =>
    cases hs
    rw [QueueStore.retrySubmittedTask, QueueStore.getD_update] at h
    exact .inl (claimed_updateWhere (by decide) h)
  | cancelSubmittedTask id =>
    cases hs
    rw [QueueStore.cancelSubmittedTask, QueueStore.getD_update] at h
    exact .inl (claimed_updateWhere (by decide) h)
  | pauseSubmittedTask id =>
    cases hs
    rw [QueueStore.pauseSubmittedTask, QueueStore.getD_update] at h
    exact .inl (claimed_updateWhere (by decide) h)
  | resumePausedTask id =>
    cases hs
    rw [QueueStore.resumePausedTask, QueueStore.getD_update] at h
    exact .inl (claimed_updateWhere (by decide) h)
  | releasePlannedTask id =>
    cases hs
    rw [QueueStore.releasePlannedTask, QueueStore.getD_update] at h
    exact .inl (claimed_updateWhere (by decide) h)
  | completeSubmittedTask id status =>
    cases hs
    rw [QueueStore.completeSubmittedTask, QueueStore.getD_update] at h
    exact .inl (claimed_updateWhere (by cases status <;> decide) h)
  | openSubmittedTask id =>
    cases hs
    rw [QueueStore.openSubmittedTask, QueueStore.getD_update] at h
    exact .inl (claimed_updateWhere (by decide) h)
  | expireOpenTasks ids =>
    cases hs
    exact .inl (claimed_updateWhere (by decide) h)
  | begin leaseId now =>
    simp only [step] at hs
    split at hs
    · split at hs
      · cases hs
        exact .inl h
      · cases hs
        exact .inl h
    · cases hs
      exact .inl h
  | call i move now =>
    obtain ⟨call, done, _, hdone, rfl⟩ := step_call hs
    exact .inl (claimed_stretch (advance_cases hdone).2 h)

theorem Held.unclaimed_step (h : Held s) (hs : step s event = some s') {lease : WorkLease}
    (hlease : lease ∈ s.queue.leases) (hholds : s.holds lease = true)
    (hfree : taskClaimed s.queue lease.taskId = false) :
    taskClaimed s'.queue lease.taskId = false := by
  by_contra hclaimed
  obtain ⟨task, htask, hsubmitted, _⟩ := h.own lease hlease hholds
  rcases claimed_step hs (taskClaimed_iff.mp ((Bool.not_eq_false _).mp hclaimed)) with
    hbefore | hbefore
  · rw [taskClaimed_iff.mpr hbefore] at hfree
    cases hfree
  · rw [statusOf, htask] at hbefore
    exact hsubmitted (Option.some.inj hbefore)

theorem closing_advance (hphase : call.phase.closing = true)
    (hfree : taskClaimed queue call.task = false)
    (hended : ∀ lease, queue.lease? call.lease = some lease → lease.status ≠ .active)
    (hdone : advance queue call now move = some done) :
    ∃ phase : Phase, (phase.closing = true ∨ phase = .done) ∧ done = goTo queue call phase := by
  cases hcase : call.phase with
  | recorded =>
    cases move with
    | throws =>
      simp [advance, hcase, Phase.inTry] at hdone
      exact ⟨.catching, .inl rfl, hdone.symm⟩
    | finish =>
      simp [advance, hcase] at hdone
      exact ⟨.done, .inr rfl, hdone.symm⟩
    | _ => simp [advance, look, hcase] at hdone
  | catching =>
    cases move with
    | throws =>
      simp [advance, hcase, Phase.inTry] at hdone
      exact ⟨.done, .inr rfl, hdone.symm⟩
    | read =>
      obtain ⟨phase, hlook, rfl⟩ := Option.map_eq_some_iff.mp hdone
      rw [look, hcase] at hlook
      obtain ⟨lease, hlease, rfl⟩ := Option.map_eq_some_iff.mp hlook
      refine ⟨_, ?_, rfl⟩
      split
      · exact .inl rfl
      · rw [if_neg (hended lease hlease)]
        exact .inr rfl
    | _ => simp [advance, hcase] at hdone
  | failing =>
    cases move with
    | throws =>
      simp [advance, hcase, Phase.inTry] at hdone
      exact ⟨.done, .inr rfl, hdone.symm⟩
    | read =>
      simp [advance, look, hcase, hfree] at hdone
      exact ⟨.done, .inr rfl, hdone.symm⟩
    | _ => simp [advance, hcase] at hdone
  | _ =>
    rw [hcase] at hphase
    cases hphase

theorem integrated_advance (hphase : call.phase = .integrated .integrated)
    (hdone : advance queue call now move = some done) :
    (move = .throws ∧ done = goTo queue call .catching) ∨
      done = completeTask queue call .integrated .recorded .catching := by
  cases move with
  | throws =>
    simp [advance, hphase, Phase.inTry] at hdone
    exact .inl ⟨rfl, hdone.symm⟩
  | record =>
    simp [advance, hphase, ending] at hdone
    exact .inr hdone.symm
  | _ => simp [advance, look, hphase, replans] at hdone

theorem settles_completeTask :
    Settles (completeTask queue call .integrated .recorded .catching).queue
      (completeTask queue call .integrated .recorded .catching).call := by
  refine .inr (.inl ?_)
  cases hcomplete : queue.completeSubmittedTask call.task .integrated with
  | some ended =>
    simp only [completeTask, hcomplete]
    refine ⟨rfl, ?_⟩
    obtain ⟨hchanges, rfl⟩ := QueueStore.completeSubmittedTask_some hcomplete
    have hclaimed := taskClaimed_iff.mp hchanges
    by_contra hstill
    rcases statusOf_updateWhere queue (fun i => i = call.task) [.claimed] .integrated call.task with
      hsame | ⟨_, _, hnew⟩
    · cases htask : queue.tasks call.task with
      | none =>
        rw [statusOf, htask] at hclaimed
        cases hclaimed
      | some task =>
        have hstatus : task.status = .claimed := by
          rw [statusOf, htask] at hclaimed
          exact Option.some.inj hclaimed
        simp [statusOf, QueueStore.updateWhere, htask, QueueStore.move, hstatus] at hsame
    · have := hnew.symm.trans (taskClaimed_iff.mp ((Bool.not_eq_false _).mp hstill))
      cases this
  | none =>
    simp only [completeTask, hcomplete]
    refine ⟨rfl, ?_⟩
    by_contra hclaimed
    have hchanges : queue.changes call.task [.claimed] = true := (Bool.not_eq_false _).mp hclaimed
    rw [QueueStore.completeSubmittedTask, if_pos hchanges] at hcomplete
    cases hcomplete

theorem settles_kept (h : Held s) (ht : Tied s) (hs : step s event = some s')
    (hcall : call ∈ s.calls) (hsettled : call.settled = true) (hreturned : call.returned = false)
    (hsettles : Settles s.queue call) : Settles s'.queue call := by
  rcases hsettles with hphase | ⟨hphase, hfree⟩ | hphase
  · exact .inl hphase
  · obtain ⟨lease, hlease, hid, htask, _⟩ := ht.known call hcall
    have hholds : s.holds lease = true := by
      refine holds_iff.mpr (.inr ⟨call, hcall, answers_iff.mpr ⟨hid.symm, hsettled, hreturned, ?_⟩⟩)
      intro hdone
      rw [hdone] at hphase
      cases hphase
    refine .inr (.inl ⟨hphase, ?_⟩)
    rw [← htask] at hfree ⊢
    exact h.unclaimed_step hs hlease hholds hfree
  · exact .inr (.inr hphase)

theorem settles_advance (ht : Tied s) {i : Nat} (hcall : s.calls[i]? = some call)
    (hok : Unbroken s (.call i move now)) (hsettled : call.settled = true)
    (hsettles : Settles s.queue call) (hdone : advance s.queue call now move = some done) :
    done.call.lease = call.lease ∧ done.call.settled = true ∧
      done.call.returned = call.returned ∧ Settles done.queue done.call := by
  have hmem := List.mem_of_getElem? hcall
  rcases hsettles with hphase | ⟨hphase, hfree⟩ | hphase
  · rcases integrated_advance hphase hdone with ⟨rfl, rfl⟩ | rfl
    · refine ⟨rfl, hsettled, rfl, .inr (.inl ⟨rfl, ?_⟩)⟩
      show taskClaimed s.queue call.task = false
      simpa [Unbroken, unbroken, inOrder, hcall, hphase] using hok
    · refine ⟨?_, ?_, ?_, settles_completeTask⟩
      · simp only [completeTask]
        split <;> rfl
      · simp only [completeTask]
        split <;> exact hsettled
      · simp only [completeTask]
        split <;> rfl
  · have hended : ∀ lease, s.queue.lease? call.lease = some lease → lease.status ≠ .active := by
      intro lease hlease
      have hid : lease.id = call.lease := by simpa using List.find?_some hlease
      exact ht.not_active hmem hsettled (List.mem_of_find?_eq_some hlease) hid
    obtain ⟨phase, hnext, rfl⟩ := closing_advance hphase hfree hended hdone
    refine ⟨rfl, hsettled, rfl, ?_⟩
    rcases hnext with hclosing | hend
    · exact .inr (.inl ⟨hclosing, hfree⟩)
    · exact .inr (.inr hend)
  · exact absurd hphase (advance_cases hdone).1

theorem settles_promoted (h : Held s) {i : Nat} (hcall : s.calls[i]? = some call)
    (hok : Unbroken s (.call i move now)) (hstretch : Stretch s.queue call now move done)
    (hadvanced : done.advanced = true) :
    done.call.lease = call.lease ∧ done.call.settled = true ∧ done.call.returned = false ∧
      Settles done.queue done.call := by
  have hmem := List.mem_of_getElem? hcall
  cases hstretch with
  | walks phase advanced _ _ _ hpromoted =>
    obtain ⟨hphase, hnext⟩ := hpromoted hadvanced
    obtain ⟨hsettled, hreturned⟩ := h.owes call hmem (by rw [hphase]; rfl)
    refine ⟨rfl, hsettled, hreturned, ?_⟩
    rcases hnext with rfl | ⟨rfl, rfl⟩
    · exact .inl rfl
    · refine .inr (.inl ⟨rfl, ?_⟩)
      simpa [Unbroken, unbroken, inOrder, hcall] using hok
  | settles => cases hadvanced
  | releases => cases hadvanced
  | records => cases hadvanced
  | returns => cases hadvanced

theorem settling_step (s : Control) (event : Event) (s' : Control)
    (h : (Tied s ∧ Held s) ∧ Settling s) (hok : Unbroken s event) (hs : step s event = some s') :
    (Tied s' ∧ Held s') ∧ Settling s' := by
  obtain ⟨⟨ht, hheld⟩, h⟩ := h
  have hinOrder : InOrder s event := (Bool.and_eq_true_iff.mp hok).1
  refine ⟨held_step s event s' ⟨ht, hheld⟩ hinOrder hs, ?_⟩
  have hkept : ∀ leaseId ∈ s.advanced, ∃ (i : Nat) (call : Call), s.calls[i]? = some call ∧
      call.lease = leaseId ∧ call.settled = true ∧ call.returned = false ∧
      Settles s.queue call ∧ Settles s'.queue call := by
    intro leaseId hadvanced
    obtain ⟨i, call, hcall, hlease, hsettled, hreturned, hsettles⟩ := h leaseId hadvanced
    exact ⟨i, call, hcall, hlease, hsettled, hreturned, hsettles,
      settles_kept hheld ht hs (List.mem_of_getElem? hcall) hsettled hreturned hsettles⟩
  intro leaseId hleaseId
  cases step_cases hs with
  | store queue _ =>
    obtain ⟨i, call, hcall, hlease, hsettled, hreturned, _, hsettles⟩ := hkept leaseId hleaseId
    exact ⟨i, call, hcall, hlease, hsettled, hreturned, hsettles⟩
  | leases now lease _ =>
    obtain ⟨i, call, hcall, hlease, hsettled, hreturned, _, hsettles⟩ := hkept leaseId hleaseId
    exact ⟨i, call, hcall, hlease, hsettled, hreturned, hsettles⟩
  | begins lease _ =>
    obtain ⟨i, call, hcall, hlease, hsettled, hreturned, _, hsettles⟩ := hkept leaseId hleaseId
    refine ⟨i, call, ?_, hlease, hsettled, hreturned, hsettles⟩
    exact (List.getElem?_append_left (List.getElem?_eq_some_iff.mp hcall).1).trans hcall
  | calls j move now call done hcall hdone =>
    have hlt := (List.getElem?_eq_some_iff.mp hcall).1
    by_cases hold : leaseId ∈ s.advanced
    · obtain ⟨i, other, hother, hlease, hsettled, hreturned, hbefore, hafter⟩ := hkept leaseId hold
      by_cases hij : j = i
      · cases hij
        rw [hcall] at hother
        cases hother
        obtain ⟨hsame, hstill, hback, hsettles⟩ :=
          settles_advance ht hcall hok hsettled hbefore hdone
        exact ⟨j, done.call, List.getElem?_set_self hlt, hsame.trans hlease, hstill,
          hback.trans hreturned, hsettles⟩
      · exact ⟨i, other, (List.getElem?_set_ne hij).trans hother, hlease, hsettled, hreturned,
          hafter⟩
    · have hnew : done.advanced = true ∧ leaseId = call.lease := by
        change leaseId ∈ if done.advanced = true then s.advanced ++ [call.lease] else s.advanced
          at hleaseId
        split at hleaseId
        · rename_i hadvanced
          rcases List.mem_append.mp hleaseId with hin | hin
          · exact absurd hin hold
          · exact ⟨hadvanced, List.mem_singleton.mp hin⟩
        · exact absurd hleaseId hold
      obtain ⟨hadvanced, rfl⟩ := hnew
      obtain ⟨hsame, hsettled, hreturned, hsettles⟩ :=
        settles_promoted hheld hcall hok (advance_cases hdone).2 hadvanced
      exact ⟨j, done.call, List.getElem?_set_self hlt, hsame, hsettled, hreturned, hsettles⟩

end Settling

theorem Settling.recordedAsPromoted {s : Control} (h : Settling s) (hheld : Held s) (ht : Tied s) :
    RecordedAsPromoted s := by
  intro leaseId hadvanced event s' hs hbehalf taskId hafter
  obtain ⟨i, call, hcall, hlease, hsettled, _, hsettles⟩ := h leaseId hadvanced
  have hmem := List.mem_of_getElem? hcall
  have hended : ∀ status now,
      statusOf (s.queue.finishWorkLease leaseId status now).1 taskId = statusOf s.queue taskId := by
    intro status now
    rcases statusOf_finishWorkLease s.queue leaseId status now taskId with hsame | ⟨hlive, _⟩
    · exact hsame
    · obtain ⟨lease, hmemLease, hid, hactive⟩ := hlive
      exact absurd hactive (ht.not_active hmem hsettled hmemLease (hid.trans hlease.symm))
  cases event with
  | finishWorkLease id status finishedAt =>
    obtain ⟨_, hs⟩ := Option.ite_none_left_eq_some.mp hs
    cases hs
    cases hbehalf
    exact hended status finishedAt
  | call j move now =>
    obtain ⟨other, done, hother, hdone, rfl⟩ := step_call hs
    obtain ⟨mine, hmine, rfl⟩ := hbehalf
    rw [hother] at hmine
    cases hmine
    have howner : other.settled = true → other = call := by
      intro hotherSettled
      have hij := ht.settled_once i j call other hcall hother hsettled hotherSettled hlease
      cases hij
      rw [hcall] at hother
      exact (Option.some.inj hother).symm
    have howing : other.phase.owes = true → other.phase = .integrated .integrated := by
      intro howes
      cases howner (hheld.owes other (List.mem_of_getElem? hother) howes).1
      rcases hsettles with hphase | ⟨hphase, _⟩ | hphase
      · exact hphase
      · rw [not_owes_of_closing hphase] at howes
        cases howes
      · rw [hphase] at howes
        cases howes
    cases (advance_cases hdone).2 with
    | walks => rfl
    | settles status phase ended _ _ hfinish =>
      have hsame := hended status now
      rw [hfinish] at hsame
      exact hsame
    | releases phase _ => exact hended .released now
    | records status phase ended hending _ hcomplete =>
      obtain ⟨_, rfl⟩ := QueueStore.completeSubmittedTask_some hcomplete
      rcases statusOf_updateWhere s.queue (fun i => i = other.task) [.claimed] status.status taskId
        with hsame | ⟨_, _, hnew⟩
      · exact hsame
      · rw [howing (owes_of_ending hending)] at hending
        cases hending
        rcases hafter with hafter | hafter
        · cases hnew.symm.trans hafter
        · cases hnew.symm.trans hafter
    | returns retried hphase _ =>
      have hretrying := howing (by rw [hphase]; rfl)
      rw [hphase] at hretrying
      cases hretrying
  | _ => exact hbehalf.elim

/-- **A result is promoted once**, in every state that a run reaches, and recorded as what
happened where nothing throws between the two. -/
theorem promoted_once {events : List Event} {s : Control} (hs : run step {} events = some s) :
    PromotedOnce s ∧ (Throughout step Unbroken {} events → RecordedAsPromoted s) := by
  have ht := tied_run hs
  refine ⟨(run_keeps inside_step inside_init hs).promotedOnce ht, fun h => ?_⟩
  have hinit : (Tied {} ∧ Held {}) ∧ Settling {} :=
    ⟨⟨tied_init, held_init⟩, fun _ hadvanced => absurd hadvanced List.not_mem_nil⟩
  obtain ⟨⟨_, hheld⟩, hsettling⟩ := run_invariant settling_step hinit h hs
  exact hsettling.recordedAsPromoted hheld ht

/-- The integration is answered, the task has its ending, and what is written after it
throws. -/
def throwsAfterEnding : List Event :=
  [.submitTask "t" false [], .leaseNextTask 0 (leaseOn "L1" 30), .begin "L1" 1, .begin "L1" 1,
    .call 0 .read 1, .call 0 .run 2, .call 0 .settle 3, .call 0 (.integrate .integrated) 4,
    .call 0 .record 5, .call 0 .throws 6, .call 0 .read 7, .call 0 .read 8]

theorem promoted_once_throws_later :
    ∃ s, run step {} throwsAfterEnding = some s ∧ PromotedOnce s ∧ RecordedAsPromoted s := by
  obtain ⟨s, hs⟩ := Option.isSome_iff_exists.mp
    (show (run step {} throwsAfterEnding).isSome = true by decide)
  obtain ⟨honce, hrecorded⟩ := promoted_once hs
  exact ⟨s, hs, honce, hrecorded (by decide)⟩

/-- The integration is answered and `saveIntegration` throws. -/
def throwsBeforeEnding : List Event :=
  [.submitTask "t" false [], .leaseNextTask 0 (leaseOn "L1" 30), .begin "L1" 1, .call 0 .read 1,
    .call 0 .run 2, .call 0 .settle 3, .call 0 (.integrate .integrated) 4, .call 0 .throws 5,
    .call 0 .read 6, .call 0 .read 7]

/-- What canonical has, the status of the task, and the lease of the first call. -/
def promotedStatus (s : Control) : List String × Option SubmittedTaskStatus × Option String :=
  (s.advanced, statusOf s.queue "t", (s.calls[0]?).map Call.lease)

/-- The next step of the call fails a task that canonical has. -/
theorem promoted_and_failed :
    (run step {} (throwsBeforeEnding ++ [.call 0 .record 8])).map promotedStatus =
        some (["L1"], some .failed, some "L1") ∧
      ¬ ∀ events s, run step {} events = some s → PromotedOnce s ∧ RecordedAsPromoted s := by
  have hafter : (run step {} (throwsBeforeEnding ++ [.call 0 .record 8])).map promotedStatus =
      some (["L1"], some .failed, some "L1") := by decide
  have hbefore : (run step {} throwsBeforeEnding).map promotedStatus =
      some (["L1"], some .claimed, some "L1") := by decide
  refine ⟨hafter, fun hall => ?_⟩
  obtain ⟨s', hs', hfailed⟩ := Option.map_eq_some_iff.mp hafter
  obtain ⟨s, hs, hlast⟩ := run_append hs'
  obtain ⟨t, ht, hend⟩ := run_cons hlast
  cases hend
  rw [hs, Option.map_some] at hbefore
  simp only [promotedStatus, Option.some.injEq, Prod.mk.injEq] at hbefore hfailed
  obtain ⟨hadvanced, hclaimed, hlease⟩ := hbefore
  obtain ⟨call, hcall, hcallLease⟩ := Option.map_eq_some_iff.mp hlease
  have hsame := (hall throwsBeforeEnding s hs).2 "L1" (hadvanced ▸ List.mem_cons_self)
    (.call 0 .record 8) _ ht ⟨call, hcall, hcallLease⟩ "t" (.inl hfailed.2.1)
  rw [hfailed.2.1, hclaimed] at hsame
  cases hsame

end AgenticGit.Cli.ResultCalls
