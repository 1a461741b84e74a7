import AgenticGit.Lib.Runs
import AgenticGit.Persistence.TaskQueue

/- Conversations: the tasks of one conversation are its turns, and a turn that ran
   stays open until the next one is submitted (`submitTask`, `openSubmittedTask`,
   `expireOpenTasks` of `sqlite-store.ts`).

   What is proved:
     1. `one_open_turn` — over every sequence of queue operations, a conversation has
        at most one open turn exactly as long as no turn is opened beside another
        open one: nothing settles the earlier turn when the later one is opened.
     2. `one_live_turn` — turns submitted one after the other, and none retried behind
        a later one, run one after the other.
     3. `two_open_turns` — two turns submitted before the first ran end up open
        together.

   Correspondence (TypeScript ↔ Lean):
     `conversation_id`, `after_task_id` of a row ↔ `TurnRow`; its status is in the queue
     a method that throws or answers `undefined` ↔ the store it leaves
     the rows a `SELECT` picks by repository, project, kind or age ↔ an argument -/
namespace AgenticGit.Persistence
open AgenticGit.Runs

/-- The columns that tie a row of `submitted_tasks` to other rows. -/
structure TurnRow where
  id : String
  conversationId : Option String := none
  afterTaskId : Option String := none
  deriving DecidableEq, Repr

structure ConversationStore where
  queue : QueueStore := {}
  /-- The rows, in the order they were inserted. -/
  rows : List TurnRow := []

namespace ConversationStore

def row? (s : ConversationStore) (id : String) : Option TurnRow :=
  s.rows.find? fun row => row.id = id

def conversationOf (s : ConversationStore) (id : String) : Option String :=
  (s.row? id).bind TurnRow.conversationId

def turnsOf (s : ConversationStore) (conversationId : String) : List String :=
  (s.rows.map TurnRow.id).filter fun id => s.conversationOf id = some conversationId

def isIn (s : ConversationStore) (among : List SubmittedTaskStatus) (id : String) : Bool :=
  s.queue.changes id among

/-- A row whose predecessor is still to run, which no `SELECT` of work picks. -/
def waits (s : ConversationStore) (id : String) : Bool :=
  ((s.row? id).bind TurnRow.afterTaskId).any
    (s.isIn [.submitted, .claimed, .planned, .paused])

/-- Files a new row; a new turn settles the conversation's open one. An id that is
taken is refused. -/
def submitTask (s : ConversationStore) (row : TurnRow) (planOnly : Bool) : ConversationStore :=
  if (s.row? row.id).isSome then s
  else
    { queue := s.queue.submitTask row.id planOnly
        ((row.conversationId.map s.turnsOf).getD [])
      rows := s.rows ++ [row] }

def claimSubmittedTasks (s : ConversationStore) (ids : List String) : ConversationStore :=
  { s with queue := s.queue.claimSubmittedTasks (ids.filter fun id => !s.waits id) }

def leaseNextTask (s : ConversationStore) (now : Int) (lease : WorkLease) : ConversationStore :=
  let expired := { s with queue := s.queue.expireWorkLeases now }
  if expired.waits lease.taskId then expired
  else { s with queue := (s.queue.leaseNextTask now lease).getD s.queue }

end ConversationStore

inductive QueueOp where
  | submitTask (row : TurnRow) (planOnly : Bool)
  | claimSubmittedTasks (ids : List String)
  | leaseNextTask (now : Int) (lease : WorkLease)
  | retrySubmittedTask (id : String)
  | cancelSubmittedTask (id : String)
  | pauseSubmittedTask (id : String)
  | resumePausedTask (id : String)
  | releasePlannedTask (id : String)
  | completeSubmittedTask (id : String) (status : QueueStore.Completion)
  | openSubmittedTask (id : String)
  | expireOpenTasks (ids : List String)
  | heartbeatWorkLease (id : String) (heartbeatAt expiresAt : Int)
  | finishWorkLease (id : String) (status : WorkLeaseStatus) (finishedAt : Int)
  | expireWorkLeases (now : Int)

namespace ConversationStore

def apply (s : ConversationStore) : QueueOp → ConversationStore
  | .submitTask row planOnly => s.submitTask row planOnly
  | .claimSubmittedTasks ids => s.claimSubmittedTasks ids
  | .leaseNextTask now lease => s.leaseNextTask now lease
  | .retrySubmittedTask id => { s with queue := (s.queue.retrySubmittedTask id).getD s.queue }
  | .cancelSubmittedTask id => { s with queue := (s.queue.cancelSubmittedTask id).getD s.queue }
  | .pauseSubmittedTask id => { s with queue := (s.queue.pauseSubmittedTask id).getD s.queue }
  | .resumePausedTask id => { s with queue := (s.queue.resumePausedTask id).getD s.queue }
  | .releasePlannedTask id => { s with queue := (s.queue.releasePlannedTask id).getD s.queue }
  | .completeSubmittedTask id status =>
    { s with queue := (s.queue.completeSubmittedTask id status).getD s.queue }
  | .openSubmittedTask id => { s with queue := (s.queue.openSubmittedTask id).getD s.queue }
  | .expireOpenTasks ids => { s with queue := s.queue.expireOpenTasks ids }
  | .heartbeatWorkLease id heartbeatAt expiresAt =>
    { s with queue := s.queue.heartbeatWorkLease id heartbeatAt expiresAt }
  | .finishWorkLease id status finishedAt =>
    { s with queue := (s.queue.finishWorkLease id status finishedAt).1 }
  | .expireWorkLeases now => { s with queue := s.queue.expireWorkLeases now }

def step (s : ConversationStore) (op : QueueOp) : Option ConversationStore := some (s.apply op)

/-! ## What is claimed of a run -/

def isOpen (s : ConversationStore) (id : String) : Bool := s.isIn [.open] id

def SameConversation (s : ConversationStore) (id other : String) : Prop :=
  s.conversationOf id = s.conversationOf other ∧ s.conversationOf id ≠ none

/-- At most one turn of each conversation has one of the statuses. -/
def OneAmong (s : ConversationStore) (among : List SubmittedTaskStatus) : Prop :=
  ∀ id other, s.SameConversation id other → s.isIn among id = true → s.isIn among other = true →
    id = other

def OneOpen (s : ConversationStore) : Prop := s.OneAmong [.open]

/-- An open turn beside which another one is opened is settled by it. -/
def SettlesEarlier (s t : ConversationStore) : Prop :=
  ∀ id other, t.SameConversation id other → id ≠ other → s.isOpen id = false →
    t.isOpen id = true → s.isOpen other = true → t.isIn [.integrated] other = true

def Obeys (s : ConversationStore) (op : QueueOp) : Prop :=
  s.OneOpen ∧ (s.apply op).OneOpen ∧ SettlesEarlier s (s.apply op)

/-- A turn is opened when no other turn of its conversation is open. -/
def OpensAlone (s : ConversationStore) : QueueOp → Prop
  | .openSubmittedTask id =>
    s.isIn [.claimed] id = true →
      ∀ other, s.SameConversation id other → id ≠ other → s.isOpen other = false
  | _ => True

/-- The statuses of a turn that has not run to its end. -/
def pending : List SubmittedTaskStatus := [.submitted, .claimed, .planned, .paused]

/-- A turn is submitted once the turns before it ran, and a failed one retried when
no other turn of its conversation is to run or open. -/
def SubmittedInTurn (s : ConversationStore) : QueueOp → Prop
  | .submitTask row _ =>
    s.row? row.id = none → row.conversationId ≠ none →
      ∀ other, s.conversationOf other = row.conversationId → s.isIn pending other = false
  | .retrySubmittedTask id =>
    s.isIn [.failed] id = true →
      ∀ other, s.SameConversation id other → id ≠ other →
        s.isIn (.open :: pending) other = false
  | _ => True

/-! ## What an operation does to a row -/

/-- The statuses an operation may give a row, and what the row was before. -/
def Sets (s : ConversationStore) (id : String) : QueueOp → SubmittedTaskStatus → Prop
  | .submitTask row _, status =>
    (row.id = id ∧ s.row? id = none ∧ status ∈ [.planned, .submitted]) ∨
      (status = .integrated ∧ s.isIn [.open] id = true)
  | .claimSubmittedTasks _, status => status = .claimed ∧ s.isIn [.submitted] id = true
  | .leaseNextTask _ _, status =>
    status ∈ [.submitted, .claimed] ∧ s.isIn [.submitted, .claimed] id = true
  | .retrySubmittedTask other, status =>
    other = id ∧ status = .submitted ∧ s.isIn [.claimed, .failed] id = true
  | .cancelSubmittedTask _, status => status = .cancelled
  | .pauseSubmittedTask _, status =>
    status = .paused ∧ s.isIn [.submitted, .claimed] id = true
  | .resumePausedTask _, status => status = .submitted ∧ s.isIn [.paused] id = true
  | .releasePlannedTask _, status => status = .submitted ∧ s.isIn [.planned] id = true
  | .completeSubmittedTask _ completion, status => status = completion.status
  | .openSubmittedTask other, status =>
    other = id ∧ status = .open ∧ s.isIn [.claimed] id = true
  | .expireOpenTasks _, status => status = .integrated
  | .heartbeatWorkLease _ _ _, _ => False
  | .finishWorkLease _ _ _, status => status = .submitted ∧ s.isIn [.claimed] id = true
  | .expireWorkLeases _, status => status = .submitted ∧ s.isIn [.claimed] id = true

theorem changes_iff {s : QueueStore} {id : String} {among : List SubmittedTaskStatus} :
    s.changes id among = true ↔ ∃ task, s.tasks id = some task ∧ task.status ∈ among := by
  simp only [QueueStore.changes, Option.any_eq_true, decide_eq_true_eq]

variable {from' : List SubmittedTaskStatus} {op : QueueOp}

theorem changes_updateWhere {s : QueueStore} {ids : String → Bool} {status : SubmittedTaskStatus}
    {id : String} {among : List SubmittedTaskStatus}
    (h : (s.updateWhere ids from' status).changes id among = true) : s.changes id among = true ∨
      (ids id = true ∧ s.changes id from' = true ∧ status ∈ among) := by
  obtain ⟨task, htask, hin⟩ := changes_iff.mp h
  obtain ⟨old, hold, rfl⟩ := Option.map_eq_some_iff.mp htask
  split at hin
  · rename_i hid
    unfold QueueStore.move at hin
    split at hin
    · rename_i hfrom
      exact .inr ⟨hid, changes_iff.mpr ⟨old, hold, hfrom⟩, hin⟩
    · exact .inl (changes_iff.mpr ⟨old, hold, hin⟩)
  · exact .inl (changes_iff.mpr ⟨old, hold, hin⟩)

theorem changes_update {s : QueueStore} {at' : String} {status : SubmittedTaskStatus} {id : String}
    {among : List SubmittedTaskStatus} (h : (s.update at' from' status).changes id among = true) :
    s.changes id among = true ∨ (at' = id ∧ s.changes id from' = true ∧ status ∈ among) := by
  rcases changes_updateWhere h with hold | ⟨hid, hfrom, hin⟩
  · exact .inl hold
  · exact .inr ⟨(of_decide_eq_true hid).symm, hfrom, hin⟩

theorem changes_expireWorkLeases {s : QueueStore} {now : Int} {id : String}
    {among : List SubmittedTaskStatus} (h : (s.expireWorkLeases now).changes id among = true) :
    s.changes id among = true ∨ (s.changes id [.claimed] = true ∧ .submitted ∈ among) := by
  rcases changes_updateWhere (s := s) h with hold | ⟨-, hfrom, hin⟩
  · exact .inl hold
  · exact .inr ⟨hfrom, hin⟩

theorem changes_finishWorkLease {s : QueueStore} {lease : String} {status : WorkLeaseStatus}
    {finishedAt : Int} {id : String} {among : List SubmittedTaskStatus}
    (h : (s.finishWorkLease lease status finishedAt).1.changes id among = true) :
    s.changes id among = true ∨ (s.changes id [.claimed] = true ∧ .submitted ∈ among) := by
  cases hfinish : s.finishWorkLease lease status finishedAt with
  | mk s' done =>
    rw [hfinish] at h
    cases done with
    | false =>
      rw [QueueStore.finishWorkLease_false hfinish] at h
      exact .inl h
    | true =>
      obtain ⟨ended, -, -, -, -, -, htasks⟩ := QueueStore.finishWorkLease_true hfinish
      unfold QueueStore.changes at h
      rw [htasks] at h
      split at h
      · rcases changes_update h with hold | ⟨-, hfrom, hin⟩
        · exact .inl hold
        · exact .inr ⟨hfrom, hin⟩
      · exact .inl h

theorem changes_leaseNextTask {s : QueueStore} {now : Int} {lease : WorkLease} {id : String}
    {among : List SubmittedTaskStatus}
    (h : ((s.leaseNextTask now lease).getD s).changes id among = true) :
    s.changes id among = true ∨
      ∃ status ∈ among, status ∈ [SubmittedTaskStatus.submitted, .claimed] ∧
        s.changes id [.submitted, .claimed] = true := by
  have hexpired : (s.expireWorkLeases now).changes id among = true → s.changes id among = true ∨
      ∃ status ∈ among, status ∈ [SubmittedTaskStatus.submitted, .claimed] ∧
        s.changes id [.submitted, .claimed] = true := by
    intro hafter
    rcases changes_expireWorkLeases hafter with hold | ⟨hfrom, hin⟩
    · exact .inl hold
    · obtain ⟨task, htask, hclaimed⟩ := changes_iff.mp hfrom
      exact .inr ⟨.submitted, hin, by decide,
        changes_iff.mpr ⟨task, htask, List.mem_cons_of_mem _ hclaimed⟩⟩
  cases hleased : s.leaseNextTask now lease with
  | none =>
    rw [hleased] at h
    exact .inl h
  | some s' =>
    rw [hleased, Option.getD_some] at h
    rcases QueueStore.leaseNextTask_cases hleased with rfl | ⟨task, htask, hstatus, -, htasks, -⟩
    · exact hexpired h
    · by_cases hid : id = lease.taskId
      · obtain ⟨new, hnew, hin⟩ := changes_iff.mp h
        rw [htasks, hid, Function.update_self] at hnew
        obtain rfl := Option.some.inj hnew
        have hwas : s.changes id [.submitted, .claimed] = true := by
          have hafter : (s.expireWorkLeases now).changes id [.submitted, .claimed] = true :=
            changes_iff.mpr ⟨task, hid ▸ htask, by simp [hstatus]⟩
          rcases changes_expireWorkLeases hafter with hold | ⟨hfrom, -⟩
          · exact hold
          · obtain ⟨old, hold, hclaimed⟩ := changes_iff.mp hfrom
            exact changes_iff.mpr ⟨old, hold, List.mem_cons_of_mem _ hclaimed⟩
        exact .inr ⟨.claimed, hin, by decide, hwas⟩
      · obtain ⟨old, hold, hin⟩ := changes_iff.mp h
        rw [htasks, Function.update_of_ne hid] at hold
        exact hexpired (changes_iff.mpr ⟨old, hold, hin⟩)

/-- **What an operation does to a row.** -/
theorem isIn_apply {s : ConversationStore} {id : String} {among : List SubmittedTaskStatus}
    (h : (s.apply op).isIn among id = true) :
    s.isIn among id = true ∨ ∃ status ∈ among, s.Sets id op status := by
  have hmoved : ∀ {at' : String} {from' : List SubmittedTaskStatus} {status : SubmittedTaskStatus},
      ((if s.queue.changes at' from' = true then some (s.queue.update at' from' status)
        else none).getD s.queue).changes id among = true →
      s.isIn among id = true ∨
        (status ∈ among ∧ at' = id ∧ s.isIn from' id = true) := by
    intro at' from' status hafter
    rw [QueueStore.getD_update] at hafter
    rcases changes_update hafter with hold | ⟨hid, hfrom, hin⟩
    · exact .inl hold
    · exact .inr ⟨hin, hid, hfrom⟩
  cases op with
  | submitTask row planOnly =>
    change (s.submitTask row planOnly).isIn among id = true at h
    unfold submitTask at h
    split at h
    · exact .inl h
    · rename_i hnew
      obtain ⟨task, htask, hin⟩ := changes_iff.mp h
      by_cases hid : id = row.id
      · subst hid
        unfold QueueStore.submitTask at htask
        dsimp only at htask
        rw [Function.update_self] at htask
        obtain rfl := Option.some.inj htask
        refine .inr ⟨_, hin, .inl ⟨rfl, Option.not_isSome_iff_eq_none.mp hnew, ?_⟩⟩
        cases planOnly
        · decide
        · decide
      · unfold QueueStore.submitTask at htask
        dsimp only at htask
        rw [Function.update_of_ne hid] at htask
        rcases changes_updateWhere (changes_iff.mpr ⟨task, htask, hin⟩) with
          hold | ⟨-, hopen, hstatus⟩
        · exact .inl hold
        · exact .inr ⟨_, hstatus, .inr ⟨rfl, hopen⟩⟩
  | claimSubmittedTasks ids =>
    obtain ⟨task, htask, hin⟩ := changes_iff.mp h
    obtain ⟨old, hold, rfl⟩ := Option.map_eq_some_iff.mp htask
    split at hin
    · rename_i hclaimed
      exact .inr ⟨_, hin, rfl, changes_iff.mpr ⟨old, hold, by simp [hclaimed.2]⟩⟩
    · exact .inl (changes_iff.mpr ⟨old, hold, hin⟩)
  | leaseNextTask now lease =>
    change (s.leaseNextTask now lease).isIn among id = true at h
    simp only [leaseNextTask] at h
    split at h
    · rcases changes_expireWorkLeases (s := s.queue) h with hold | ⟨hfrom, hin⟩
      · exact .inl hold
      · obtain ⟨task, htask, hclaimed⟩ := changes_iff.mp hfrom
        exact .inr ⟨_, hin, by decide,
          changes_iff.mpr ⟨task, htask, List.mem_cons_of_mem _ hclaimed⟩⟩
    · exact changes_leaseNextTask h
  | retrySubmittedTask other =>
    rcases hmoved h with hold | ⟨hin, hid, hfrom⟩
    · exact .inl hold
    · exact .inr ⟨_, hin, hid, rfl, hfrom⟩
  | cancelSubmittedTask other =>
    rcases hmoved h with hold | ⟨hin, -, -⟩
    · exact .inl hold
    · exact .inr ⟨_, hin, rfl⟩
  | pauseSubmittedTask other =>
    rcases hmoved h with hold | ⟨hin, -, hfrom⟩
    · exact .inl hold
    · exact .inr ⟨_, hin, rfl, hfrom⟩
  | resumePausedTask other =>
    rcases hmoved h with hold | ⟨hin, -, hfrom⟩
    · exact .inl hold
    · exact .inr ⟨_, hin, rfl, hfrom⟩
  | releasePlannedTask other =>
    rcases hmoved h with hold | ⟨hin, -, hfrom⟩
    · exact .inl hold
    · exact .inr ⟨_, hin, rfl, hfrom⟩
  | completeSubmittedTask other completion =>
    rcases hmoved h with hold | ⟨hin, -, -⟩
    · exact .inl hold
    · exact .inr ⟨_, hin, rfl⟩
  | openSubmittedTask other =>
    rcases hmoved h with hold | ⟨hin, hid, hfrom⟩
    · exact .inl hold
    · exact .inr ⟨_, hin, hid, rfl, hfrom⟩
  | expireOpenTasks ids =>
    rcases changes_updateWhere (s := s.queue) h with hold | ⟨-, -, hin⟩
    · exact .inl hold
    · exact .inr ⟨_, hin, rfl⟩
  | heartbeatWorkLease other heartbeatAt expiresAt =>
    change (s.queue.heartbeatWorkLease other heartbeatAt expiresAt).changes id among = true at h
    unfold QueueStore.heartbeatWorkLease at h
    split at h
    · exact .inl h
    · exact .inl h
  | finishWorkLease other status finishedAt =>
    rcases changes_finishWorkLease h with hold | ⟨hfrom, hin⟩
    · exact .inl hold
    · exact .inr ⟨_, hin, rfl, hfrom⟩
  | expireWorkLeases now =>
    rcases changes_expireWorkLeases h with hold | ⟨hfrom, hin⟩
    · exact .inl hold
    · exact .inr ⟨_, hin, rfl, hfrom⟩

theorem isIn_submitTask_self {s : ConversationStore} {row : TurnRow} {planOnly : Bool}
    {among : List SubmittedTaskStatus} (hnew : s.row? row.id = none)
    (h : (s.submitTask row planOnly).isIn among row.id = true) :
    .planned ∈ among ∨ .submitted ∈ among := by
  unfold submitTask at h
  rw [if_neg (by simp [hnew])] at h
  obtain ⟨task, htask, hin⟩ := changes_iff.mp h
  simp only [QueueStore.submitTask, Function.update_self] at htask
  obtain rfl := Option.some.inj htask
  cases planOnly
  · exact .inr hin
  · exact .inl hin

theorem conversationOf_apply {s : ConversationStore} {id : String}
    (h : ∀ row planOnly, op = .submitTask row planOnly → s.row? row.id = none → row.id ≠ id) :
    (s.apply op).conversationOf id = s.conversationOf id := by
  cases op with
  | submitTask row planOnly =>
    show (s.submitTask row planOnly).conversationOf id = s.conversationOf id
    unfold submitTask
    split
    · rfl
    · rename_i hnew
      have hne := h row planOnly rfl (Option.not_isSome_iff_eq_none.mp hnew)
      simp [conversationOf, row?, List.find?_append, hne]
  | leaseNextTask now lease =>
    show (s.leaseNextTask now lease).conversationOf id = s.conversationOf id
    simp only [leaseNextTask]
    split
    · rfl
    · rfl
  | _ => rfl

theorem row?_id {s : ConversationStore} {id : String} {row : TurnRow} (h : s.row? id = some row) :
    row.id = id := by
  simpa using List.find?_some h

theorem mem_turnsOf {s : ConversationStore} {id conversationId : String}
    (h : s.conversationOf id = some conversationId) : id ∈ s.turnsOf conversationId := by
  obtain ⟨row, hrow, -⟩ := Option.bind_eq_some_iff.mp h
  refine List.mem_filter.mpr ⟨?_, by simpa using h⟩
  exact List.mem_map.mpr ⟨row, List.mem_of_find?_eq_some hrow, row?_id hrow⟩

/-! ## A turn opened beside another -/

theorem isOpen_apply {s : ConversationStore} {id : String} (h : (s.apply op).isOpen id = true) :
    (s.apply op).conversationOf id = s.conversationOf id ∧
      (s.isOpen id = true ∨ (op = .openSubmittedTask id ∧ s.isIn [.claimed] id = true)) := by
  constructor
  · refine conversationOf_apply ?_
    rintro row planOnly rfl hnew rfl
    have hstatus := isIn_submitTask_self hnew h
    simp at hstatus
  · rcases isIn_apply h with hold | ⟨status, hopen, hsets⟩
    · exact .inl hold
    · obtain rfl := List.mem_singleton.mp hopen
      cases op with
      | openSubmittedTask other =>
        obtain ⟨rfl, -, hclaimed⟩ := hsets
        exact .inr ⟨rfl, hclaimed⟩
      | completeSubmittedTask other completion =>
        cases completion
        · cases hsets
        · cases hsets
        · cases hsets
      | _ => simp [Sets] at hsets

theorem isIn_openSubmittedTask {s : ConversationStore} {id : String}
    (hclaimed : s.isIn [.claimed] id = true) :
    (s.apply (.openSubmittedTask id)).isOpen id = true ∧
      ∀ other among, id ≠ other →
        (s.apply (.openSubmittedTask id)).isIn among other = s.isIn among other := by
  have happly : (s.apply (.openSubmittedTask id)).queue = s.queue.update id [.claimed] .open :=
    QueueStore.getD_update s.queue id [.claimed] .open
  obtain ⟨task, htask, hstatus⟩ := changes_iff.mp hclaimed
  constructor
  · refine changes_iff.mpr ⟨_, by rw [happly]; exact Option.map_eq_some_iff.mpr ⟨_, htask, rfl⟩, ?_⟩
    simp [QueueStore.move, hstatus]
  · intro other among hne
    show (s.apply (.openSubmittedTask id)).queue.changes other among = s.queue.changes other among
    rw [happly]
    simp [QueueStore.changes, QueueStore.update, QueueStore.updateWhere, Ne.symm hne]

theorem OneOpen.obeys {s : ConversationStore} (hs : s.OneOpen) (hop : s.OpensAlone op) :
    s.Obeys op := by
  have hbeside : ∀ {id other}, (s.apply op).SameConversation id other → id ≠ other →
      (s.apply op).conversationOf id = s.conversationOf id →
      (s.apply op).conversationOf other = s.conversationOf other → op = .openSubmittedTask id →
      s.isIn [.claimed] id = true → s.isOpen other = false := by
    rintro id other hsame hne hid hother rfl hclaimed
    rw [SameConversation, hid, hother] at hsame
    exact hop hclaimed other hsame hne
  refine ⟨hs, ?_, ?_⟩
  · intro id other hsame hid hother
    obtain ⟨hidConv, hidWas⟩ := isOpen_apply hid
    obtain ⟨hotherConv, hotherWas⟩ := isOpen_apply hother
    by_contra hne
    rcases hidWas with hidOpen | ⟨rfl, hclaimed⟩
    · rcases hotherWas with hotherOpen | ⟨rfl, hclaimed⟩
      · rw [SameConversation, hidConv, hotherConv] at hsame
        exact hne (hs id other hsame hidOpen hotherOpen)
      · have hsame' : (s.apply (.openSubmittedTask other)).SameConversation other id :=
          ⟨hsame.1.symm, hsame.1 ▸ hsame.2⟩
        have hclosed := hbeside hsame' (Ne.symm hne) hotherConv hidConv rfl hclaimed
        simp [hclosed] at hidOpen
    · rcases hotherWas with hotherOpen | ⟨hop', -⟩
      · have hclosed := hbeside hsame hne hidConv hotherConv rfl hclaimed
        simp [hclosed] at hotherOpen
      · exact hne (by simpa using hop')
  · intro id other hsame hne hclosed hid hother
    obtain ⟨hidConv, hidWas⟩ := isOpen_apply hid
    rcases hidWas with hidOpen | ⟨rfl, hclaimed⟩
    · simp [hclosed] at hidOpen
    · have hotherConv : (s.apply (.openSubmittedTask id)).conversationOf other =
          s.conversationOf other := rfl
      have hclosed' := hbeside hsame hne hidConv hotherConv rfl hclaimed
      simp [hclosed'] at hother

theorem Obeys.opensAlone {s : ConversationStore} (h : s.Obeys op) : s.OpensAlone op := by
  cases op with
  | openSubmittedTask id =>
    intro hclaimed other hsame hne
    obtain ⟨hid, hrest⟩ := isIn_openSubmittedTask hclaimed
    by_contra hopen
    have hother : (s.apply (.openSubmittedTask id)).isOpen other = true := by
      rw [isOpen, hrest other [.open] hne]
      exact Bool.not_eq_false _ ▸ hopen
    exact hne (h.2.1 id other hsame hid hother)
  | _ => trivial

/-- **Over every sequence of queue operations, no conversation has two open turns, and
a turn opened beside an open one settles it, exactly when no turn is opened beside an
open one.** Opening a turn settles nothing (`isIn_openSubmittedTask`). -/
theorem one_open_turn (ops : List QueueOp) :
    Throughout step Obeys {} ops ↔ Throughout step OpensAlone {} ops := by
  constructor
  · exact throughout_mono fun s op => Obeys.opensAlone
  · refine @throughout_of_inv _ _ step _ OneOpen _ ?_ (fun s op hs hop => hs.obeys hop) _ _ ?_
    · intro s op t hs hop ht
      obtain rfl := Option.some.inj ht
      exact (hs.obeys hop).2.1
    · intro id other hsame
      exact absurd rfl hsame.2

def firstTurn : TurnRow := { id := "t1", conversationId := some "c" }
def secondTurn : TurnRow := { id := "t2", conversationId := some "c", afterTaskId := some "t1" }

/-- Both turns are filed before the first one runs; each is opened when it ran. -/
def twoTurns : List QueueOp :=
  [.submitTask firstTurn false, .submitTask secondTurn false,
    .claimSubmittedTasks ["t1"], .openSubmittedTask "t1",
    .claimSubmittedTasks ["t2"], .openSubmittedTask "t2"]

/-- **Two turns of one conversation are open together.** -/
theorem two_open_turns :
    ¬ Throughout step Obeys {} twoTurns ∧
      ∃ s, run step {} twoTurns = some s ∧ s.SameConversation "t1" "t2" ∧
        s.isOpen "t1" = true ∧ s.isOpen "t2" = true := by
  have hrun : ∃ s, run step {} twoTurns = some s ∧ s.SameConversation "t1" "t2" ∧
      s.isOpen "t1" = true ∧ s.isOpen "t2" = true := by
    refine ⟨_, rfl, ⟨?_, ?_⟩, ?_, ?_⟩
    · decide
    · decide
    · decide
    · decide
  refine ⟨fun hobeys => ?_, hrun⟩
  obtain ⟨-, hobeys⟩ := hobeys
  obtain ⟨-, hobeys⟩ := hobeys _ rfl
  obtain ⟨-, hobeys⟩ := hobeys _ rfl
  obtain ⟨-, hobeys⟩ := hobeys _ rfl
  obtain ⟨-, hobeys⟩ := hobeys _ rfl
  obtain ⟨⟨-, hone, -⟩, -⟩ := hobeys _ rfl
  obtain ⟨s, hs, hsame, hfirst, hsecond⟩ := hrun
  cases hs
  exact absurd (hone "t1" "t2" hsame hfirst hsecond) (by decide)

/-! ## Turns submitted one after the other -/

theorem isIn_live_apply {s : ConversationStore} {id : String}
    (h : (s.apply op).isIn (.open :: pending) id = true) : s.isIn (.open :: pending) id = true ∨
      (∃ row planOnly, op = .submitTask row planOnly ∧ row.id = id ∧ s.row? id = none) ∨
      (op = .retrySubmittedTask id ∧ s.isIn [.failed] id = true) := by
  have hlive : ∀ {among : List SubmittedTaskStatus}, (∀ x ∈ among, x ∈ .open :: pending) →
      s.isIn among id = true → s.isIn (.open :: pending) id = true := by
    intro among hsub hin
    obtain ⟨task, htask, hstatus⟩ := changes_iff.mp hin
    exact changes_iff.mpr ⟨task, htask, hsub _ hstatus⟩
  rcases isIn_apply h with hold | ⟨status, hin, hsets⟩
  · exact .inl hold
  cases op with
  | submitTask row planOnly =>
    rcases hsets with ⟨hid, hnew, -⟩ | ⟨rfl, -⟩
    · exact .inr (.inl ⟨row, planOnly, rfl, hid, hnew⟩)
    · exact absurd hin (by decide)
  | claimSubmittedTasks ids => exact .inl (hlive (by decide) hsets.2)
  | leaseNextTask now lease => exact .inl (hlive (by decide) hsets.2)
  | retrySubmittedTask other =>
    obtain ⟨rfl, -, hwas⟩ := hsets
    obtain ⟨task, htask, hstatus⟩ := changes_iff.mp hwas
    rcases List.mem_cons.mp hstatus with hclaimed | hfailed
    · exact .inl (changes_iff.mpr ⟨task, htask, by rw [hclaimed]; decide⟩)
    · exact .inr (.inr ⟨rfl, changes_iff.mpr ⟨task, htask, hfailed⟩⟩)
  | cancelSubmittedTask other =>
    obtain rfl : status = .cancelled := hsets
    exact absurd hin (by decide)
  | pauseSubmittedTask other => exact .inl (hlive (by decide) hsets.2)
  | resumePausedTask other => exact .inl (hlive (by decide) hsets.2)
  | releasePlannedTask other => exact .inl (hlive (by decide) hsets.2)
  | completeSubmittedTask other completion =>
    obtain rfl : status = completion.status := hsets
    cases completion
    · exact absurd hin (by decide)
    · exact absurd hin (by decide)
    · exact absurd hin (by decide)
  | openSubmittedTask other => exact .inl (hlive (by decide) hsets.2.2)
  | expireOpenTasks ids =>
    obtain rfl : status = .integrated := hsets
    exact absurd hin (by decide)
  | heartbeatWorkLease other heartbeatAt expiresAt => cases hsets
  | finishWorkLease other finish finishedAt => exact .inl (hlive (by decide) hsets.2)
  | expireWorkLeases now => exact .inl (hlive (by decide) hsets.2)

theorem isIn_submitTask_other {s : ConversationStore} {row : TurnRow} {planOnly : Bool}
    {other : String} (hnew : s.row? row.id = none)
    (hin : SubmittedInTurn s (.submitTask row planOnly)) (hne : row.id ≠ other)
    (hsame : s.conversationOf other = row.conversationId) (hconv : row.conversationId ≠ none) :
    (s.submitTask row planOnly).isIn (.open :: pending) other = false := by
  by_contra hlive
  rw [Bool.not_eq_false] at hlive
  obtain ⟨conversationId, hconversation⟩ := Option.ne_none_iff_exists'.mp hconv
  have hturn : other ∈ s.turnsOf conversationId := mem_turnsOf (hsame.trans hconversation)
  obtain ⟨task, htask, hstatus⟩ := changes_iff.mp hlive
  unfold submitTask at htask
  rw [if_neg (by simp [hnew])] at htask
  simp only [QueueStore.submitTask, Function.update_of_ne (Ne.symm hne)] at htask
  obtain ⟨old, hold, rfl⟩ := Option.map_eq_some_iff.mp htask
  simp only [hconversation, Option.map_some, Option.getD_some, hturn, decide_true, if_true,
    QueueStore.move] at hstatus
  split at hstatus
  · simp [pending] at hstatus
  · rename_i hopen
    rcases List.mem_cons.mp hstatus with hwas | hwas
    · exact hopen (by simp [hwas])
    · have hpending : s.isIn pending other = true := changes_iff.mpr ⟨old, hold, hwas⟩
      simp [hin hnew hconv other hsame] at hpending

theorem OneAmong.apply {s : ConversationStore} (hs : s.OneAmong (.open :: pending))
    (hop : s.SubmittedInTurn op) : (s.apply op).OneAmong (.open :: pending) := by
  -- A row filed or retried by `op` has no live turn of its conversation beside it.
  have hnew : ∀ {row planOnly other}, op = .submitTask row planOnly → s.row? row.id = none →
      (s.apply op).SameConversation row.id other → row.id ≠ other →
      (s.apply op).isIn (.open :: pending) other = false := by
    rintro row planOnly other rfl hrow hsame hne
    have hother : (s.apply (.submitTask row planOnly)).conversationOf other =
        s.conversationOf other := by
      refine conversationOf_apply ?_
      rintro row' planOnly' heq -
      cases heq
      exact hne
    have hself : (s.apply (.submitTask row planOnly)).conversationOf row.id =
        row.conversationId := by
      show (s.submitTask row planOnly).conversationOf row.id = row.conversationId
      unfold submitTask
      rw [if_neg (by simp [hrow])]
      rw [row?] at hrow
      simp [conversationOf, row?, List.find?_append, hrow]
    rw [SameConversation, hself, hother] at hsame
    exact isIn_submitTask_other hrow hop hne hsame.1.symm hsame.2
  have hconv : ∀ {id}, (∀ row planOnly, op = .submitTask row planOnly →
      s.row? row.id = none → row.id ≠ id) →
      (s.apply op).conversationOf id = s.conversationOf id := conversationOf_apply
  intro id other hsame hid hother
  by_contra hne
  have hsame' : (s.apply op).SameConversation other id := ⟨hsame.1.symm, hsame.1 ▸ hsame.2⟩
  by_cases hfiled : ∃ row planOnly, op = .submitTask row planOnly ∧ s.row? row.id = none ∧
      (row.id = id ∨ row.id = other)
  · obtain ⟨row, planOnly, hop', hrow, rfl | rfl⟩ := hfiled
    · simp [hnew hop' hrow hsame hne] at hother
    · simp [hnew hop' hrow hsame' (Ne.symm hne)] at hid
  · have hkeeps : ∀ at', at' = id ∨ at' = other →
        (s.apply op).conversationOf at' = s.conversationOf at' := by
      intro at' hat
      refine hconv fun row planOnly hop' hrow heq => hfiled ⟨row, planOnly, hop', hrow, ?_⟩
      exact hat.imp (fun h => heq.trans h) fun h => heq.trans h
    rw [SameConversation, hkeeps id (.inl rfl), hkeeps other (.inr rfl)] at hsame
    rcases isIn_live_apply hid with hidWas | ⟨row, planOnly, hop', hrow, hnone⟩ | ⟨rfl, hfailed⟩
    · rcases isIn_live_apply hother with
        hotherWas | ⟨row, planOnly, hop', hrow, hnone⟩ | ⟨rfl, hfailed⟩
      · exact hne (hs id other hsame hidWas hotherWas)
      · exact hfiled ⟨row, planOnly, hop', hrow ▸ hnone, .inr hrow⟩
      · have halone := hop hfailed id ⟨hsame.1.symm, hsame.1 ▸ hsame.2⟩ (Ne.symm hne)
        simp [halone] at hidWas
    · exact hfiled ⟨row, planOnly, hop', hrow ▸ hnone, .inl hrow⟩
    · have halone := hop hfailed other hsame hne
      rcases isIn_live_apply hother with
        hotherWas | ⟨row, planOnly, hop', -⟩ | ⟨hop', -⟩
      · simp [halone] at hotherWas
      · cases hop'
      · exact hne (by simpa using hop')

/-- **Turns that are submitted one after the other run one after the other.** Over every
sequence of queue operations in which a turn is submitted once the turns before it ran, at
most one turn of each conversation is to run, runs or is open. -/
theorem one_live_turn {ops : List QueueOp} {s : ConversationStore}
    (h : Throughout step SubmittedInTurn {} ops) (hs : run step {} ops = some s) :
    s.OneAmong (.open :: pending) := by
  refine @run_invariant _ _ step _ (fun s => s.OneAmong (.open :: pending))
    (fun t op u ht hop hu => ?_) _ _ _ ?_ h hs
  · obtain rfl := Option.some.inj hu
    exact ht.apply hop
  · intro id other hsame
    exact absurd rfl hsame.2

/-- The second turn is filed when the first one is open. -/
def inTurn : List QueueOp :=
  [.submitTask firstTurn false, .claimSubmittedTasks ["t1"], .openSubmittedTask "t1",
    .submitTask secondTurn false, .claimSubmittedTasks ["t2"], .openSubmittedTask "t2"]

theorem one_live_turn_inTurn : ∃ s, run step {} inTurn = some s ∧
    s.isOpen "t1" = false ∧ s.isOpen "t2" = true ∧ s.OneAmong (.open :: pending) := by
  have hsecond : ∀ s : ConversationStore, s.rows = [firstTurn] → s.isIn pending "t1" = false →
      s.SubmittedInTurn (.submitTask secondTurn false) := by
    intro s hrows hran _ _ other hother
    by_cases hid : other = "t1"
    · rw [hid, hran]
    · simp [conversationOf, row?, hrows, firstTurn, secondTurn, Ne.symm hid] at hother
  have hthroughout : Throughout step SubmittedInTurn {} inTurn := by
    refine ⟨fun _ _ other hother => ?_, fun _ h1 => ⟨trivial, fun _ h2 => ⟨trivial, fun _ h3 => ?_⟩⟩⟩
    · cases hother
    · cases h1
      cases h2
      cases h3
      exact ⟨hsecond _ rfl (by decide), fun _ _ => ⟨trivial, fun _ _ => ⟨trivial, fun _ _ => trivial⟩⟩⟩
  exact ⟨_, rfl, by decide, by decide, one_live_turn hthroughout rfl⟩

end ConversationStore

end AgenticGit.Persistence
