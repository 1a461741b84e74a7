import AgenticGit.Lib.LogPages
import AgenticGit.Lib.OrderedMap
import AgenticGit.Lib.Runs

/- The audit stream: `AuditWebSocketHub` of `websocket.ts`, over the live rows of the log.

   The part of `poll` for one client runs in stretches between its `await`s; the rows are
   appended, and moved to the archive, by anybody in between.

   Correspondence (TypeScript ↔ Lean):
     `listAuditEvents`, of the live rows     ↔ `listAuditEvents`
     `this.runProjects`                      ↔ `runProjects`
     `send`, and whether the client is too slow ↔ `Client.send`
     where a client's part of `poll` stands  ↔ `Phase`
   Principals and the handshake are left out; `drops` is a socket that closes or is closed.

   What is proved:
     1. `Kept.stretch` — a stretch keeps what a client is sent in order.
     2. `streamed` — a subscriber gets every row it may see once and in order, and one
        that comes back with the last sequence it got is sent what follows. -/
namespace AgenticGit.Gateway.AuditStream
open AgenticGit.LogPages AgenticGit.Runs

/-! ## The hub -/

structure ProjectRecord where
  id : String
  organizationId : String
  deriving DecidableEq, Repr

/-- A row, with the `projectId` and the `organizationId` of its data. -/
structure AuditRecord where
  sequence : Nat
  runId : Option String
  projectId : Option String
  organizationId : Option String
  deriving DecidableEq, Repr

inductive Message where
  | connected (cursor : Nat)
  | audit (record : AuditRecord)
  | transient (value : String)
  deriving DecidableEq, Repr

inductive Phase where
  | idle
  | polled
  /-- Before the next row of the page. -/
  | walks (page : List AuditRecord)
  /-- `await this.store.getRun(runId)`, for a row. -/
  | looksUp (record : AuditRecord) (runId : String) (page : List AuditRecord)
  /-- What `visible` answered for a row. -/
  | decided (record : AuditRecord) (visible : Bool) (page : List AuditRecord)
  deriving DecidableEq, Repr

structure Client where
  project : ProjectRecord
  after : Nat
  cursor : Nat
  sent : List Message
  closed : Bool := false
  phase : Phase := .idle
  deriving DecidableEq, Repr

structure Hub where
  live : List AuditRecord := []
  archived : List AuditRecord := []
  runProjects : OrderedMap String (Option String) := .empty
  clients : List Client := []

def listAuditEvents (live : List AuditRecord) (afterSequence limit : Nat) : List AuditRecord :=
  (live.filter fun record => afterSequence < record.sequence).take limit

/-- Whether the data of a row without a run is a project's. -/
def ownData (project : ProjectRecord) (record : AuditRecord) : Bool :=
  record.projectId = some project.id || record.organizationId = some project.organizationId

namespace Client

def disconnect (client : Client) : Client := { client with closed := true }

def send (client : Client) (tooSlow : Bool) (message : Message) : Client :=
  if client.closed || tooSlow then client.disconnect
  else { client with sent := client.sent ++ [message] }

end Client

/-- What comes next for one client. -/
inductive Stretch where
  /-- The answer of `reauthorize`; none when it throws. -/
  | reauthorize (answer : Option ProjectRecord)
  | list (throws : Bool)
  | next
  /-- The project of the run that is looked up, if there is one; none when `getRun` throws. -/
  | answered (projectId : Option (Option String))
  | deliver (tooSlow : Bool)
  | transient (value : String) (tooSlow : Bool)
  | drops
  deriving DecidableEq, Repr

/-- `visible`, up to its `await`. -/
def visible (hub : Hub) (project : ProjectRecord) (record : AuditRecord)
    (page : List AuditRecord) : Phase :=
  match record.runId with
  | none => .decided record (ownData project record) page
  | some runId =>
    match hub.runProjects.get? runId with
    | some projectId => .decided record (projectId = some project.id) page
    | none => .looksUp record runId page

/-- A stretch of a client's part of `poll`, with what `runProjects` is afterwards. -/
def Client.step (hub : Hub) (client : Client) :
    Stretch → Option (Client × OrderedMap String (Option String))
  | .reauthorize answer =>
    match client.phase, answer with
    | .polled, some project =>
      if client.closed then some ({ client with phase := .idle }, hub.runProjects)
      else some ({ client with project }, hub.runProjects)
    | .polled, none => some ({ client.disconnect with phase := .idle }, hub.runProjects)
    | _, _ => none
  | .list throws =>
    match client.phase with
    | .polled =>
      if throws then some ({ client.disconnect with phase := .idle }, hub.runProjects)
      else some ({ client with phase := .walks (listAuditEvents hub.live client.cursor 500) },
        hub.runProjects)
    | _ => none
  | .next =>
    match client.phase with
    | .walks [] => some ({ client with phase := .idle }, hub.runProjects)
    | .walks (record :: page) =>
      some ({ client with
          cursor := record.sequence
          phase := visible hub client.project record page }, hub.runProjects)
    | _ => none
  | .answered projectId =>
    match client.phase, projectId with
    | .looksUp record runId page, some projectId =>
      some ({ client with
          phase := .decided record (projectId = some client.project.id) page },
        hub.runProjects.set runId projectId)
    | .looksUp _ _ _, none => some ({ client.disconnect with phase := .idle }, hub.runProjects)
    | _, _ => none
  | .deliver tooSlow =>
    match client.phase with
    | .decided record visible page =>
      let client := if visible then client.send tooSlow (.audit record) else client
      some ({ client with phase := .walks page }, hub.runProjects)
    | _ => none
  | .transient value tooSlow =>
    if client.closed then none else some (client.send tooSlow (.transient value), hub.runProjects)
  | .drops => some (client.disconnect, hub.runProjects)

inductive Event where
  | append (record : AuditRecord)
  /-- `archiveAuditEvents`: the first live rows go to the archive. -/
  | archive (count : Nat)
  | connect (project : ProjectRecord) (after : Nat)
  | poll
  | client (i : Nat) (stretch : Stretch)
  deriving DecidableEq, Repr

def step (hub : Hub) : Event → Option Hub
  | .append record =>
    -- `sequence` is an AUTOINCREMENT key.
    if ∀ old ∈ hub.archived ++ hub.live, old.sequence < record.sequence then
      some { hub with live := hub.live ++ [record] }
    else none
  | .archive count =>
    some { hub with
      archived := hub.archived ++ hub.live.take count
      live := hub.live.drop count }
  | .connect project after =>
    some { hub with
      clients := hub.clients ++ [⟨project, after, after, [.connected after], false, .idle⟩] }
  | .poll =>
    -- `this.polling`: the last poll is over for everybody.
    if ∀ client ∈ hub.clients, client.phase = .idle then
      some { hub with
        clients := hub.clients.map fun client =>
          if client.closed then client else { client with phase := .polled } }
    else none
  | .client i stretch =>
    match hub.clients[i]? with
    | none => none
    | some client =>
      (client.step hub stretch).map fun next =>
        { hub with clients := hub.clients.set i next.1, runProjects := next.2 }

/-! ## What a subscriber is to get -/

def Hub.log (hub : Hub) : List AuditRecord := hub.archived ++ hub.live

section
variable (projectOf : String → Option String)

/-- Whether a project may see a row, with the project of each run as given. -/
def Shows (project : ProjectRecord) (record : AuditRecord) : Bool :=
  match record.runId with
  | none => ownData project record
  | some runId => projectOf runId = some project.id

/-- The rows a client may see behind the sequence it connected with. -/
def stream (log : List AuditRecord) (client : Client) : List AuditRecord :=
  log.filter fun record =>
    decide (client.after < record.sequence) && Shows projectOf client.project record

def audits (sent : List Message) : List AuditRecord :=
  sent.filterMap fun
    | .audit record => some record
    | _ => none

/-- The row whose turn it is, if the client may see it. -/
def pending (project : ProjectRecord) : Phase → List AuditRecord
  | .looksUp record _ _ => [record].filter (Shows projectOf project)
  | .decided record visible _ => if visible then [record] else []
  | _ => []

/-- What a client was sent, of the rows it may see. -/
structure Streamed (log : List AuditRecord) (client : Client) : Prop where
  inOrder : audits client.sent <+: stream projectOf log client
  upToCursor : client.closed = false →
    audits client.sent ++ pending projectOf client.project client.phase =
      upTo AuditRecord.sequence client.cursor (stream projectOf log client)

def Phase.runId : Phase → Option String
  | .looksUp _ runId _ => some runId
  | _ => none

/-- A run is looked up once it is there, and a project stays what it is. -/
def Stretch.Orderly (client : Client) : Stretch → Prop
  | .answered projectId => ∀ found ∈ projectId, ∀ runId ∈ client.phase.runId,
      found = projectOf runId
  | .reauthorize answer => ∀ project ∈ answer, project = client.project
  | _ => True

/-- A client comes, and the archive moves on, behind nobody's cursor. -/
def Orderly (hub : Hub) : Event → Prop
  | .connect _ after => ∀ record ∈ hub.archived, record.sequence ≤ after
  | .archive count => ∀ record ∈ hub.live.take count, ∀ client ∈ hub.clients,
      client.closed = false → record.sequence ≤ client.cursor
  | .client i stretch => ∀ client ∈ hub.clients[i]?, stretch.Orderly projectOf client
  | _ => True

instance (client : Client) : DecidablePred (Stretch.Orderly projectOf client)
  | .answered projectId => inferInstanceAs (Decidable (∀ _ ∈ projectId, _))
  | .reauthorize answer => inferInstanceAs (Decidable (∀ _ ∈ answer, _))
  | .list _ | .next | .deliver _ | .transient _ _ | .drops => isTrue trivial

instance (hub : Hub) : DecidablePred (Orderly projectOf hub)
  | .connect _ _ => inferInstanceAs (Decidable (∀ _ ∈ hub.archived, _))
  | .archive count => inferInstanceAs (Decidable (∀ _ ∈ hub.live.take count, _))
  | .client i _ => inferInstanceAs (Decidable (∀ _ ∈ hub.clients[i]?, _))
  | .append _ | .poll => isTrue trivial

/-! ## The invariant -/

def Phase.page : Phase → List AuditRecord
  | .walks page | .looksUp _ _ page | .decided _ _ page => page
  | _ => []

def Phase.Sound (project : ProjectRecord) : Phase → Prop
  | .looksUp record runId _ => record.runId = some runId
  | .decided record visible _ => visible = Shows projectOf project record
  | _ => True

/-- A client that is connected: what it was sent, and the rows it is about to be sent. -/
structure Going (log : List AuditRecord) (client : Client) : Prop where
  upToCursor : audits client.sent ++ pending projectOf client.project client.phase =
    upTo AuditRecord.sequence client.cursor (stream projectOf log client)
  page : client.phase.page <+: log.filter fun record => client.cursor < record.sequence
  sound : client.phase.Sound projectOf client.project
  after : client.after ≤ client.cursor
  cursor : client.cursor = client.after ∨ ∃ record ∈ log, record.sequence = client.cursor

structure Follows (log : List AuditRecord) (client : Client) : Prop where
  inOrder : audits client.sent <+: stream projectOf log client
  going : client.closed = false → Going projectOf log client

structure Kept (hub : Hub) : Prop where
  ascending : Ascending AuditRecord.sequence hub.log
  cache : ∀ runId projectId, hub.runProjects.get? runId = some projectId →
    projectId = projectOf runId
  behind : ∀ client ∈ hub.clients, client.closed = false →
    ∀ record ∈ hub.archived, record.sequence ≤ client.cursor
  follows : ∀ client ∈ hub.clients, Follows projectOf hub.log client

variable {projectOf} {log : List AuditRecord} {client : Client} {record : AuditRecord}

theorem stream_append (new : List AuditRecord) :
    stream projectOf (log ++ new) client =
      stream projectOf log client ++ stream projectOf new client := List.filter_append ..

theorem Follows.append (h : Follows projectOf log client)
    (hnew : ∀ old ∈ log, old.sequence < record.sequence) :
    Follows projectOf (log ++ [record]) client where
  inOrder := by
    rw [stream_append]
    exact h.inOrder.trans (List.prefix_append _ _)
  going hopen := by
    have hgoing := h.going hopen
    refine ⟨?_, ?_, hgoing.sound, hgoing.after, ?_⟩
    · have hlate : upTo AuditRecord.sequence client.cursor
          (stream projectOf [record] client) = [] := by
        refine List.filter_eq_nil_iff.2 fun late hlate => ?_
        obtain ⟨hmem, hstream⟩ := List.mem_filter.1 hlate
        rw [List.mem_singleton.1 hmem, Bool.and_eq_true, decide_eq_true_eq] at hstream
        rw [List.mem_singleton.1 hmem, decide_eq_true_eq, not_le]
        rcases hgoing.cursor with hcursor | ⟨old, hold, hcursor⟩
        · exact hcursor ▸ hstream.1
        · exact hcursor ▸ hnew old hold
      rw [hgoing.upToCursor, stream_append, upTo, upTo, List.filter_append]
      rw [upTo] at hlate
      rw [hlate, List.append_nil]
    · rw [List.filter_append]
      exact hgoing.page.trans (List.prefix_append _ _)
    · refine hgoing.cursor.imp id ?_
      rintro ⟨old, hold, hcursor⟩
      exact ⟨old, List.mem_append_left _ hold, hcursor⟩

theorem Follows.disconnect (h : Follows projectOf log client) (phase : Phase) :
    Follows projectOf log { client.disconnect with phase } :=
  ⟨h.inOrder, fun hopen => by cases hopen⟩

/-- What a client may see up to a row is what it may see up to the row before, and that
row if it may see it. -/
theorem upTo_stream {cursor : Nat}
    (h : upTo AuditRecord.sequence cursor log ++ [record] =
      upTo AuditRecord.sequence record.sequence log) (hafter : client.after < record.sequence) :
    upTo AuditRecord.sequence record.sequence (stream projectOf log client) =
      upTo AuditRecord.sequence cursor (stream projectOf log client) ++
        [record].filter (Shows projectOf client.project) := by
  have hcomm : ∀ bound, upTo AuditRecord.sequence bound (stream projectOf log client) =
      stream projectOf (upTo AuditRecord.sequence bound log) client :=
    fun bound => List.filter_comm ..
  rw [hcomm, hcomm, ← h, stream_append]
  congr 1
  refine List.filter_congr fun one hone => ?_
  rw [List.mem_singleton.1 hone, decide_eq_true hafter, Bool.true_and]

theorem Client.send_cases (client : Client) (tooSlow : Bool) (message : Message) :
    client.send tooSlow message = client.disconnect ∨
      client.closed = false ∧
        client.send tooSlow message = { client with sent := client.sent ++ [message] } := by
  unfold Client.send
  cases hclosed : client.closed <;> cases tooSlow <;> simp

theorem Follows.next {page : List AuditRecord} {phase : Phase}
    (h : Follows projectOf log client) (hlog : Ascending AuditRecord.sequence log)
    (hphase : client.phase = .walks (record :: page)) (hpage : phase.page = page)
    (hsound : phase.Sound projectOf client.project)
    (hpending : pending projectOf client.project phase =
      [record].filter (Shows projectOf client.project)) :
    Follows projectOf log { client with cursor := record.sequence, phase } where
  inOrder := h.inOrder
  going hopen := by
    have hgoing := h.going hopen
    have hrows := hgoing.page
    rw [hphase] at hrows
    obtain ⟨hupTo, hrest⟩ := upTo_append_next hlog hrows
    obtain ⟨hmem, hlt⟩ := List.mem_filter.1 (hrows.subset List.mem_cons_self)
    have hlt := of_decide_eq_true hlt
    have hafter := Nat.lt_of_le_of_lt hgoing.after hlt
    have hsent := hgoing.upToCursor
    simp only [hphase, pending, List.append_nil] at hsent
    refine ⟨?_, hpage ▸ hrest, hsound, Nat.le_of_lt hafter, .inr ⟨record, hmem, rfl⟩⟩
    show audits client.sent ++ pending projectOf client.project phase = _
    rw [hpending, hsent]
    exact (upTo_stream hupTo hafter).symm

theorem Follows.deliver {visible tooSlow : Bool} {page : List AuditRecord}
    (h : Follows projectOf log client) (hlog : Ascending AuditRecord.sequence log)
    (hphase : client.phase = .decided record visible page) :
    Follows projectOf log
      { (if visible then client.send tooSlow (.audit record) else client) with
        phase := .walks page } := by
  have hgone : Follows projectOf log { client.disconnect with phase := .walks page } :=
    h.disconnect _
  cases hvisible : visible with
  | false =>
    refine ⟨h.inOrder, fun hopen => ?_⟩
    have hgoing := h.going hopen
    have hsent := hgoing.upToCursor
    have hpage := hgoing.page
    rw [hphase] at hpage
    rw [hphase, hvisible] at hsent
    exact ⟨hsent, hpage, trivial, hgoing.after, hgoing.cursor⟩
  | true =>
    rw [if_pos rfl]
    rcases client.send_cases tooSlow (.audit record) with hsend | ⟨hopen, hsend⟩
    · rw [hsend]
      exact hgone
    · rw [hsend]
      have hgoing := h.going hopen
      have hsent := hgoing.upToCursor
      have hpage := hgoing.page
      rw [hphase] at hpage
      simp only [pending, hphase, hvisible, if_true] at hsent
      have haudits : audits (client.sent ++ [.audit record]) = audits client.sent ++ [record] :=
        List.filterMap_append ..
      refine ⟨?_, fun _ => ⟨?_, hpage, trivial, hgoing.after, hgoing.cursor⟩⟩
      · show audits (client.sent ++ [.audit record]) <+: stream projectOf log client
        rw [haudits, hsent]
        exact ⟨_, (hlog.filter _).split client.cursor⟩
      · show audits (client.sent ++ [.audit record]) ++ [] = _
        rw [haudits, List.append_nil]
        exact hsent

theorem Client.open_of_send (client : Client) {tooSlow : Bool} {message : Message}
    (h : (client.send tooSlow message).closed = false) :
    client.closed = false ∧ client.cursor ≤ (client.send tooSlow message).cursor := by
  rcases client.send_cases tooSlow message with hsend | ⟨hopen, hsend⟩
  · rw [hsend] at h
    cases h
  · rw [hsend]
    exact ⟨hopen, Nat.le_refl _⟩

theorem visible_spec {hub : Hub}
    (hcache : ∀ runId projectId, hub.runProjects.get? runId = some projectId →
      projectId = projectOf runId)
    (project : ProjectRecord) (record : AuditRecord) (page : List AuditRecord) :
    (visible hub project record page).page = page ∧
      (visible hub project record page).Sound projectOf project ∧
      pending projectOf project (visible hub project record page) =
        [record].filter (Shows projectOf project) := by
  cases hrun : record.runId with
  | none => simp [visible, hrun, Phase.page, Phase.Sound, pending, Shows, List.filter_cons]
  | some runId =>
    cases hget : hub.runProjects.get? runId with
    | none => simp [visible, hrun, hget, Phase.page, Phase.Sound, pending]
    | some projectId =>
      obtain rfl := hcache runId projectId hget
      simp [visible, hrun, hget, Phase.page, Phase.Sound, pending, Shows, List.filter_cons]

theorem Follows.transient (h : Follows projectOf log client) (value : String) :
    Follows projectOf log { client with sent := client.sent ++ [.transient value] } := by
  have haudits : audits (client.sent ++ [.transient value]) = audits client.sent :=
    (List.filterMap_append ..).trans (List.append_nil _)
  refine ⟨haudits ▸ h.inOrder, fun hopen => ?_⟩
  have hgoing := h.going hopen
  exact ⟨(congrArg (· ++ _) haudits).trans hgoing.upToCursor, hgoing.page, hgoing.sound,
    hgoing.after, hgoing.cursor⟩

/-- What a stretch leaves: the client as it is to be, and what `runProjects` says true. -/
structure Goes (projectOf : String → Option String) (hub : Hub) (client : Client)
    (next : Client × OrderedMap String (Option String)) : Prop where
  follows : Follows projectOf hub.log next.1
  cache : ∀ runId projectId, next.2.get? runId = some projectId → projectId = projectOf runId
  behind : next.1.closed = false → client.closed = false ∧ client.cursor ≤ next.1.cursor

theorem Kept.gone {hub : Hub} (h : Kept projectOf hub) (hfollows : Follows projectOf hub.log client)
    (phase : Phase) :
    Goes projectOf hub client ({ client.disconnect with phase }, hub.runProjects) :=
  ⟨hfollows.disconnect phase, h.cache, fun hopen => by cases hopen⟩

theorem Follows.stay {phase : Phase} (h : Follows projectOf log client)
    (hpending : client.closed = false → pending projectOf client.project phase =
      pending projectOf client.project client.phase)
    (hpage : client.closed = false →
      phase.page <+: log.filter fun record => client.cursor < record.sequence)
    (hsound : client.closed = false → phase.Sound projectOf client.project) :
    Follows projectOf log { client with phase } where
  inOrder := h.inOrder
  going hopen :=
    have hgoing := h.going hopen
    ⟨(congrArg _ (hpending hopen)).trans hgoing.upToCursor, hpage hopen, hsound hopen,
      hgoing.after, hgoing.cursor⟩

/-- **A stretch keeps what a client is sent in order.** -/
theorem Kept.stretch {hub : Hub} {i : Nat} {stretch : Stretch}
    {next : Client × OrderedMap String (Option String)} (h : Kept projectOf hub)
    (hclient : hub.clients[i]? = some client) (hok : Orderly projectOf hub (.client i stretch))
    (hstep : client.step hub stretch = some next) : Goes projectOf hub client next := by
  have hmem := List.mem_of_getElem? hclient
  have hfollows := h.follows client hmem
  have hstays : ∀ {phase}, Follows projectOf hub.log { client with phase } →
      Goes projectOf hub client ({ client with phase }, hub.runProjects) :=
    fun hnext => ⟨hnext, h.cache, fun hopen => ⟨hopen, Nat.le_refl _⟩⟩
  cases stretch with
  | reauthorize answer =>
    simp only [Client.step] at hstep
    split at hstep
    · rename_i project hphase
      split at hstep
      · rename_i hclosed
        obtain rfl := Option.some.inj hstep
        refine hstays ⟨hfollows.inOrder, fun hopen => ?_⟩
        rw [hclosed] at hopen
        cases hopen
      · obtain rfl := Option.some.inj hstep
        obtain rfl := hok client hclient project rfl
        exact ⟨hfollows, h.cache, fun hopen => ⟨hopen, Nat.le_refl _⟩⟩
    · obtain rfl := Option.some.inj hstep
      exact h.gone hfollows _
    · cases hstep
  | list throws =>
    simp only [Client.step] at hstep
    split at hstep
    · rename_i hphase
      split at hstep
      · obtain rfl := Option.some.inj hstep
        exact h.gone hfollows _
      · obtain rfl := Option.some.inj hstep
        refine hstays (hfollows.stay (fun _ => ?_) (fun hopen => ?_) fun _ => trivial)
        · simp only [pending, hphase]
        · have hnone : hub.archived.filter (fun record => client.cursor < record.sequence) = [] :=
            List.filter_eq_nil_iff.2 fun record hrecord => by
              rw [decide_eq_true_eq, not_lt]
              exact h.behind client hmem hopen record hrecord
          rw [Hub.log, List.filter_append, hnone, List.nil_append]
          exact List.take_prefix _ _
    · cases hstep
  | next =>
    simp only [Client.step] at hstep
    split at hstep
    · rename_i hphase
      obtain rfl := Option.some.inj hstep
      refine hstays (hfollows.stay (fun _ => ?_) (fun _ => List.nil_prefix) fun _ => trivial)
      simp only [pending, hphase]
    · rename_i record page hphase
      obtain rfl := Option.some.inj hstep
      obtain ⟨hpage, hsound, hpending⟩ := visible_spec h.cache client.project record page
      refine ⟨hfollows.next h.ascending hphase hpage hsound hpending, h.cache, fun hopen =>
        ⟨hopen, ?_⟩⟩
      have hrows := (hfollows.going hopen).page
      rw [hphase] at hrows
      have hlt := (List.mem_filter.1 (hrows.subset List.mem_cons_self)).2
      exact Nat.le_of_lt (of_decide_eq_true hlt)
    · cases hstep
  | answered projectId =>
    simp only [Client.step] at hstep
    split at hstep
    · rename_i record runId page projectId hphase
      obtain rfl := Option.some.inj hstep
      obtain rfl := hok client hclient projectId rfl runId (by rw [hphase]; rfl)
      have hsound : client.closed = false → (projectOf runId = some client.project.id) =
          (Shows projectOf client.project record = true) := fun hopen => by
        have hrun := (hfollows.going hopen).sound
        rw [hphase, Phase.Sound] at hrun
        simp [Shows, hrun]
      refine ⟨hfollows.stay (fun hopen => ?_) (fun hopen => ?_) fun hopen => ?_,
        fun id answer hget => ?_, fun hopen => ⟨hopen, Nat.le_refl _⟩⟩
      · simp only [pending, hphase, hsound hopen, decide_eq_true_eq, List.filter_cons,
          List.filter_nil]
      · have hrows := (hfollows.going hopen).page
        rw [hphase] at hrows
        exact hrows
      · simp [Phase.Sound, hsound hopen]
      · rw [OrderedMap.get?_set] at hget
        split at hget
        · rename_i hid
          rw [← Option.some.inj hget, hid]
        · exact h.cache id answer hget
    · obtain rfl := Option.some.inj hstep
      exact h.gone hfollows _
    · cases hstep
  | deliver tooSlow =>
    simp only [Client.step] at hstep
    split at hstep
    · rename_i record visible page hphase
      obtain rfl := Option.some.inj hstep
      refine ⟨hfollows.deliver h.ascending hphase, h.cache, fun hopen => ?_⟩
      cases visible with
      | false => exact ⟨hopen, Nat.le_refl _⟩
      | true => exact client.open_of_send hopen
    · cases hstep
  | transient value tooSlow =>
    simp only [Client.step] at hstep
    split at hstep
    · cases hstep
    · obtain rfl := Option.some.inj hstep
      refine ⟨?_, h.cache, fun hopen => client.open_of_send hopen⟩
      rcases client.send_cases tooSlow (.transient value) with hsend | ⟨-, hsend⟩
      · rw [hsend]
        exact hfollows.disconnect client.phase
      · rw [hsend]
        exact hfollows.transient value
  | drops =>
    obtain rfl := Option.some.inj hstep
    exact h.gone hfollows client.phase

/-! ## Runs -/

theorem kept_init : Kept projectOf {} where
  ascending := List.Pairwise.nil
  cache _ _ h := by cases h
  behind _ h := by cases h
  follows _ h := by cases h

/-- **A step that is orderly keeps every client's stream.** -/
theorem kept_step (hub : Hub) (e : Event) (next : Hub) (h : Kept projectOf hub)
    (hok : Orderly projectOf hub e) (hstep : step hub e = some next) : Kept projectOf next := by
  cases e with
  | append record =>
    simp only [step] at hstep
    split at hstep
    · rename_i hnew
      obtain rfl := Option.some.inj hstep
      have hlog : hub.log ++ [record] = hub.archived ++ (hub.live ++ [record]) :=
        List.append_assoc ..
      refine ⟨?_, h.cache, h.behind, fun client hclient => ?_⟩
      · rw [Hub.log, ← hlog]
        refine List.pairwise_append.2 ⟨h.ascending, List.pairwise_singleton _ _, ?_⟩
        intro old hold late hlate
        rw [List.mem_singleton.1 hlate]
        exact hnew old hold
      · rw [Hub.log, ← hlog]
        exact (h.follows client hclient).append hnew
    · cases hstep
  | archive count =>
    obtain rfl := Option.some.inj hstep
    have hlog : (hub.archived ++ hub.live.take count) ++ hub.live.drop count = hub.log := by
      rw [List.append_assoc, List.take_append_drop, Hub.log]
    refine ⟨?_, h.cache, fun client hclient hopen record hrecord => ?_, fun client hclient => ?_⟩
    · rw [Hub.log, hlog]
      exact h.ascending
    · rcases List.mem_append.1 hrecord with hrecord | hrecord
      · exact h.behind client hclient hopen record hrecord
      · exact hok record hrecord client hclient hopen
    · rw [Hub.log, hlog]
      exact h.follows client hclient
  | connect project after =>
    obtain rfl := Option.some.inj hstep
    refine ⟨h.ascending, h.cache, fun client hclient hopen record hrecord => ?_,
      fun client hclient => ?_⟩
    · rcases List.mem_append.1 hclient with hclient | hclient
      · exact h.behind client hclient hopen record hrecord
      · rw [List.mem_singleton.1 hclient]
        exact hok record hrecord
    · rcases List.mem_append.1 hclient with hclient | hclient
      · exact h.follows client hclient
      · rw [List.mem_singleton.1 hclient]
        refine ⟨List.nil_prefix, fun _ => ⟨?_, List.nil_prefix, trivial, Nat.le_refl _, .inl rfl⟩⟩
        refine (List.filter_eq_nil_iff.2 fun record hrecord => ?_).symm
        obtain ⟨-, hrecord⟩ := List.mem_filter.1 hrecord
        rw [Bool.and_eq_true, decide_eq_true_eq] at hrecord
        rw [decide_eq_true_eq, not_le]
        exact hrecord.1
  | poll =>
    simp only [step] at hstep
    split at hstep
    · rename_i hidle
      obtain rfl := Option.some.inj hstep
      refine ⟨h.ascending, h.cache, fun client hclient hopen => ?_, fun client hclient => ?_⟩
      · obtain ⟨old, hold, rfl⟩ := List.mem_map.1 hclient
        by_cases hclosed : old.closed
        · rw [if_pos hclosed] at hopen ⊢
          exact h.behind old hold hopen
        · rw [if_neg hclosed]
          exact h.behind old hold (Bool.eq_false_iff.2 hclosed)
      · obtain ⟨old, hold, rfl⟩ := List.mem_map.1 hclient
        by_cases hclosed : old.closed
        · rw [if_pos hclosed]
          exact h.follows old hold
        · rw [if_neg hclosed]
          refine (h.follows old hold).stay (fun _ => ?_) (fun _ => List.nil_prefix) fun _ => trivial
          rw [hidle old hold]
          rfl
    · cases hstep
  | client i stretch =>
    simp only [step] at hstep
    split at hstep
    · cases hstep
    · rename_i client hclient
      obtain ⟨next', hnext, rfl⟩ := Option.map_eq_some_iff.1 hstep
      have hgoes := h.stretch hclient hok hnext
      refine ⟨h.ascending, hgoes.cache, fun one hone hopen => ?_, fun one hone => ?_⟩
      · rcases List.mem_or_eq_of_mem_set hone with hold | rfl
        · exact h.behind one hold hopen
        · obtain ⟨hwas, hcursor⟩ := hgoes.behind hopen
          intro record hrecord
          exact Nat.le_trans (h.behind client (List.mem_of_getElem? hclient) hwas record hrecord)
            hcursor
      · rcases List.mem_or_eq_of_mem_set hone with hold | rfl
        · exact h.follows one hold
        · exact hgoes.follows

theorem Kept.resumed {hub : Hub} (h : Kept projectOf hub) {back : Client} {last : AuditRecord}
    (hclient : client ∈ hub.clients) (hback : back ∈ hub.clients)
    (hproject : back.project = client.project)
    (hlast : (audits client.sent).getLast? = some last) (hafter : back.after = last.sequence) :
    audits client.sent ++ audits back.sent <+: stream projectOf hub.log client := by
  have hascending : Ascending AuditRecord.sequence (stream projectOf hub.log client) :=
    h.ascending.filter _
  obtain ⟨rest, hrest⟩ := (h.follows client hclient).inOrder
  obtain ⟨front, hfront⟩ := List.getLast?_eq_some_iff.1 hlast
  rw [hfront, List.append_assoc, List.singleton_append] at hrest
  have hmem : last ∈ stream projectOf hub.log client :=
    hrest ▸ List.mem_append_right _ List.mem_cons_self
  have hlt := (List.mem_filter.1 hmem).2
  rw [Bool.and_eq_true, decide_eq_true_eq] at hlt
  have hbehind : stream projectOf hub.log back =
      (stream projectOf hub.log client).filter fun record => last.sequence < record.sequence := by
    rw [stream, stream, List.filter_filter, hproject, hafter]
    refine List.filter_congr fun record _ => ?_
    by_cases hlater : last.sequence < record.sequence
    · simp [hlater, Nat.lt_trans hlt.1 hlater]
    · simp [hlater]
  rw [← hrest] at hascending
  have hrest' := hascending.part.2
  rw [hrest, ← hbehind] at hrest'
  rw [← hrest, hfront, List.append_assoc, List.singleton_append, List.prefix_append_right_inj,
    List.cons_prefix_cons, ← hrest']
  exact ⟨rfl, (h.follows back hback).inOrder⟩

variable (projectOf)

/-- **A subscriber gets every row it may see once and in order.** In every run in which the
archive stays behind the cursors, what a client was sent is the beginning of the rows it may
see behind the sequence it connected with; while it is connected it has all of them up to its
cursor but the one it is at; and one that comes back with the last sequence it got is sent
what follows. -/
theorem streamed {events : List Event} {hub : Hub}
    (h : Throughout step (Orderly projectOf) {} events) (hrun : run step {} events = some hub) :
    ∀ client ∈ hub.clients, Streamed projectOf hub.log client ∧
      ∀ back ∈ hub.clients, back.project = client.project → ∀ last,
        (audits client.sent).getLast? = some last → back.after = last.sequence →
          audits client.sent ++ audits back.sent <+: stream projectOf hub.log client := by
  have hkept := run_invariant kept_step kept_init h hrun
  intro client hclient
  have hfollows := hkept.follows client hclient
  exact ⟨⟨hfollows.inOrder, fun hopen => (hfollows.going hopen).upToCursor⟩,
    fun back hback hproject last hlast hafter =>
      hkept.resumed hclient hback hproject hlast hafter⟩

end

/-- Two rows of one run and one of another project; a second client comes while the first
one's part of the poll looks the run up, and is closed. -/
def twoSubscribers : List Event :=
  let row (sequence : Nat) (runId : String) : AuditRecord := ⟨sequence, some runId, none, none⟩
  [.append (row 1 "run"), .append (row 2 "other"), .connect ⟨"p", "o"⟩ 0, .poll,
    .client 0 (.list false), .client 0 .next, .append (row 3 "run"), .connect ⟨"p", "o"⟩ 1,
    .client 0 (.answered (some (some "p"))), .client 1 (.transient "typing" false),
    .client 0 (.deliver false), .client 0 .next, .client 0 (.answered (some (some "q"))),
    .client 0 (.deliver false), .client 0 .next, .poll, .archive 1, .client 1 (.list false),
    .client 1 .next, .client 1 (.deliver false), .client 1 .next, .client 1 (.deliver false),
    .client 1 .drops, .client 0 (.list false), .client 0 .next, .client 0 (.deliver false)]

def projectOfRun (runId : String) : Option String := if runId = "run" then some "p" else some "q"

theorem streamed_twoSubscribers :
    (run step {} twoSubscribers).map (fun hub => hub.clients.map fun client =>
        (audits client.sent).map AuditRecord.sequence) = some [[1, 3], [3]] ∧
      Streamed projectOfRun ((run step {} twoSubscribers).getD {}).log
        (((run step {} twoSubscribers).getD {}).clients.get ⟨0, by decide⟩) := by
  have horderly : Throughout step (Orderly projectOfRun) {} twoSubscribers := by decide
  exact ⟨by decide, (streamed projectOfRun horderly rfl _ (List.get_mem _ _)).1⟩

end AgenticGit.Gateway.AuditStream
