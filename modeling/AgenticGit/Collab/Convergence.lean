import Mathlib.Data.Fintype.Defs
import Mathlib.Data.Fintype.Basic
import Mathlib.Logic.Function.Basic
import AgenticGit.Collab.Document

/- Collaborative editing converges: one `CollabDocument` and any number of
   `CollaborativeClient`s over links that deliver in order but at arbitrary
   times. The system is the one `convergence.test.ts` simulates.

   Correspondence (TypeScript ↔ Lean):
     `SimulatedClient.edit/receive`       ↔ `SimulatedClient.edit/receive`
     `Simulation.deliverToServer(index)`  ↔ `Simulation.deliverToServer`
     one turn of the random loop          ↔ `Simulation.step`

   What is proved:
     1. `applyLocal_spec`, `applyServer_spec`, `acknowledge_spec` — what each
        client event does to a client whose editor is ahead of the server text.
     2. `receive_spec` — the server rebases exactly over the log since the
        revision a message names.
     3. `step_invariant` — every allowed step succeeds and keeps `Invariant`.
     4. `converges` — **convergence**, over every run. -/
namespace AgenticGit.Collab
open AgenticGit.InFlight AgenticGit.Runtime

abbrev Inbound := Message TextOperation

structure SimulatedClient where
  text : Text
  client : CollaborativeClient
  toServer : List Outbound
  fromServer : List Inbound
  deriving DecidableEq, Repr

namespace SimulatedClient

def new (content : Text) (revision : Nat) : SimulatedClient :=
  ⟨content, .new revision, [], []⟩

def edit (self : SimulatedClient) (operation : TextOperation) :
    Except CollabError SimulatedClient := do
  let text ← applyOperation self.text operation
  let (action, client) ← self.client.applyLocal operation
  return { self with text, client, toServer := self.toServer ++ action.send.toList }

/-- `message.kind === "ack" ? acknowledge() : applyServer(message.operation)`. -/
def handle (client : CollaborativeClient) :
    Inbound → Except CollabError (ClientAction × CollaborativeClient)
  | .ack => client.acknowledge
  | .op operation => client.applyServer operation

/-- Delivers one message from the server; nothing happens when there is none. -/
def receive (self : SimulatedClient) : Except CollabError SimulatedClient :=
  match self.fromServer with
  | [] => .ok self
  | message :: fromServer => do
    let (action, client) ← handle self.client message
    let text ← match action.apply with
      | none => .ok self.text
      | some operation => applyOperation self.text operation
    return { text, client, fromServer, toServer := self.toServer ++ action.send.toList }

end SimulatedClient

structure Simulation (ι : Type) where
  document : CollabDocument
  clients : ι → SimulatedClient

/-- One turn: a client edits, or a link delivers. -/
inductive Turn (ι : Type) where
  | edit (index : ι) (operation : TextOperation)
  | deliverToServer (index : ι)
  | receive (index : ι)

namespace Simulation

variable {ι : Type} [DecidableEq ι]

/-- Every client starts from the document's text and revision. -/
def start (document : CollabDocument) : Simulation ι :=
  ⟨document, fun _ => .new document.content document.revision⟩

def deliverToServer (self : Simulation ι) (index : ι) : Except CollabError (Simulation ι) :=
  match (self.clients index).toServer with
  | [] => .ok self
  | message :: toServer => do
    let (applied, document) ← self.document.receive message.revision message.operation
    return {
      document
      clients := fun other =>
        let client := self.clients other
        if other = index then { client with toServer, fromServer := client.fromServer ++ [.ack] }
        else { client with fromServer := client.fromServer ++ [.op applied.operation] } }

def step (self : Simulation ι) : Turn ι → Except CollabError (Simulation ι)
  | .edit index operation => do
    let client ← (self.clients index).edit operation
    return { self with clients := Function.update self.clients index client }
  | .deliverToServer index => self.deliverToServer index
  | .receive index => do
    let client ← (self.clients index).receive
    return { self with clients := Function.update self.clients index client }

/-- What a turn may be: an edit is a well-formed operation on the client's
current text, and a delivery names a revision, as `receive` counts them, that
is still in the history window. -/
def Allowed (self : Simulation ι) : Turn ι → Prop
  | .edit index operation =>
    operation.WellFormed ∧ operation.baseLength = (self.clients index).text.length
  | .deliverToServer index =>
    ∀ message ∈ (self.clients index).toServer.head?,
      IsSafeInteger message.revision ∧
        self.document.oldestRebasableRevision ≤ message.revision
  | .receive _ => True

/-- The states a run of allowed turns reaches. -/
inductive Reaches (origin : Simulation ι) : Simulation ι → Prop
  | start : Reaches origin origin
  | step {self next : Simulation ι} {turn : Turn ι} (run : Reaches origin self)
      (allowed : self.Allowed turn) (taken : self.step turn = .ok next) : Reaches origin next

instance (self : Simulation ι) (turn : Turn ι) : Decidable (self.Allowed turn) := by
  cases turn <;> unfold Allowed <;> infer_instance

/-- Takes the turns in order, as long as they are allowed. -/
def follow (self : Simulation ι) : List (Turn ι) → Option (Simulation ι)
  | [] => some self
  | turn :: turns =>
    if self.Allowed turn then (self.step turn).toOption.bind (follow · turns) else none

def Quiet (self : Simulation ι) : Prop :=
  ∀ index, (self.clients index).toServer = [] ∧ (self.clients index).fromServer = []

instance [Fintype ι] (self : Simulation ι) : Decidable self.Quiet :=
  inferInstanceAs (Decidable
    (∀ index, (self.clients index).toServer = [] ∧ (self.clients index).fromServer = []))

end Simulation

/-! ## One event of one client -/

variable {operation : TextOperation} {client : CollaborativeClient} {base base' text : Text}

theorem Applies.unique {before after after' : Text} (h : Applies operation before after)
    (h' : Applies operation before after') : after = after' :=
  Option.some.inj (h.act.symm.trans h'.act)

/-- The editor shows the server text `base` with the client's own unacknowledged
work on top. -/
def CollaborativeClient.Ahead (client : CollaborativeClient) (base text : Text) : Prop :=
  match client.outstanding, client.buffer with
  | none, _ => text = base
  | some outstanding, none => Applies outstanding base text
  | some outstanding, some buffer => ∃ middle, Applies outstanding base middle ∧
      Applies buffer middle text

theorem applyLocal_spec {base text text' : Text} (h : client.Ahead base text)
    (ho : Applies operation text text') :
    ∃ action client', client.applyLocal operation = .ok (action, client') ∧
      client'.Ahead base text' ∧ client'.serverRevision = client.serverRevision ∧
      ((client.outstanding = none ∧ client'.outstanding = some operation ∧
          action.send = some ⟨client.serverRevision, operation⟩) ∨
        (client.outstanding ≠ none ∧ client'.outstanding = client.outstanding ∧
          action.send = none)) := by
  obtain ⟨outstanding, buffer, revision, buffered⟩ := client
  rcases outstanding with _ | outstanding
  · rcases buffer with _ | buffer
    · obtain rfl : text = base := h
      exact ⟨_, _, rfl, ho, rfl, .inl ⟨rfl, rfl, rfl⟩⟩
    · simp at buffered
  · rcases buffer with _ | buffer
    · exact ⟨_, _, rfl, ⟨text, h, ho⟩, rfl, .inr ⟨by simp, rfl, rfl⟩⟩
    · obtain ⟨middle, hx, hb⟩ := h
      obtain ⟨composed, hc, ha⟩ := composeOperations_spec hb ho
      refine ⟨{}, ⟨some outstanding, some composed, revision, fun _ => rfl⟩, ?_,
        ⟨middle, hx, ha⟩, rfl, .inr ⟨by simp, rfl, rfl⟩⟩
      simp only [CollaborativeClient.applyLocal, hc]
      rfl

theorem applyServer_spec (h : client.Ahead base text) (ho : Applies operation base base') :
    ∃ action client' text' applied, client.applyServer operation = .ok (action, client') ∧
      action = { apply := some applied } ∧ Applies applied text text' ∧
      client'.Ahead base' text' ∧ client'.serverRevision = client.serverRevision + 1 ∧
      match client.outstanding with
      | none => client'.outstanding = none
      | some x => ∃ x' q', transformOperations x operation = .ok (x', q') ∧
          client'.outstanding = some x' := by
  obtain ⟨outstanding, buffer, revision, buffered⟩ := client
  rcases outstanding with _ | outstanding
  · obtain rfl : text = base := h
    exact ⟨_, _, base', operation, rfl, rfl, ho, rfl, rfl, rfl⟩
  · rcases buffer with _ | buffer
    · obtain ⟨x', q', merged, ht, hx, hq⟩ := transformOperations_spec h ho
      refine ⟨{ apply := some q' }, ⟨some x', none, revision + 1, fun _ => rfl⟩, merged, q',
        ?_, rfl, hq, hx, rfl, x', q', ht, rfl⟩
      simp only [CollaborativeClient.applyServer, ht]
      rfl
    · obtain ⟨middle, hx, hb⟩ := h
      obtain ⟨x', q', merged, ht, hx', hq⟩ := transformOperations_spec hx ho
      obtain ⟨b', r, last, ht', hb', hr⟩ := transformOperations_spec hb hq
      refine ⟨{ apply := some r }, ⟨some x', some b', revision + 1, fun _ => rfl⟩, last, r,
        ?_, rfl, hr, ⟨merged, hx', hb'⟩, rfl, x', q', ht, rfl⟩
      simp only [CollaborativeClient.applyServer, ht, bind, Except.bind, ht']
      rfl

/-- An acknowledgement moves what was in flight into the base and sends the
buffer, if there is one. -/
theorem acknowledge_spec {outstanding : TextOperation} (h : client.Ahead base text)
    (hx : client.outstanding = some outstanding) (ho : Applies outstanding base base') :
    ∃ action client', client.acknowledge = .ok (action, client') ∧ action.apply = none ∧
      client'.Ahead base' text ∧ client'.serverRevision = client.serverRevision + 1 ∧
      ((client'.outstanding = none ∧ action.send = none) ∨
        ∃ buffer, client'.outstanding = some buffer ∧ Applies buffer base' text ∧
          action.send = some ⟨client'.serverRevision, buffer⟩) := by
  obtain ⟨_, buffer, revision, buffered⟩ := client
  obtain rfl := hx
  rcases buffer with _ | buffer
  · obtain rfl := h.unique ho
    exact ⟨_, _, rfl, rfl, rfl, rfl, .inl ⟨rfl, rfl⟩⟩
  · obtain ⟨middle, hm, hb⟩ := h
    obtain rfl := hm.unique ho
    exact ⟨_, _, rfl, rfl, hb, rfl, .inr ⟨buffer, rfl, hb, rfl⟩⟩

/-! ## The log -/

/-- The document remembers the end of `log`, whose first entry carries revision
`first` to the next. The log itself is never cut; it is not in the code. -/
structure Remembers (document : CollabDocument) (first : Nat) (log : List TextOperation) :
    Prop where
  since : first ≤ document.historyBase
  window : document.history = log.drop (document.historyBase - first)
  reached : document.revision = first + log.length

theorem Remembers.append {document : CollabDocument} {first : Nat} {log : List TextOperation}
    (h : Remembers document first log) (text : Text) (operation : TextOperation) :
    Remembers (document.append text operation) first (log ++ [operation]) := by
  obtain ⟨since, window, reached⟩ := h
  have hr : document.historyBase + document.history.length = first + log.length := reached
  refine ⟨Nat.le_trans since (Nat.le_add_right _ _), ?_, ?_⟩
  · simp only [CollabDocument.append]
    rw [window, ← List.drop_append_of_le_length (by omega), List.drop_drop]
    congr 1
    omega
  · rw [CollabDocument.append_revision, reached, List.length_append, List.length_singleton]
    omega

/-- **The server rebases exactly over what it logged since the revision the
message names.** -/
theorem receive_spec {document : CollabDocument} {first : Nat} {log : List TextOperation}
    {message : Outbound} {rebased : TextOperation} {text : Text}
    (h : Remembers document first log) (hsafe : IsSafeInteger message.revision)
    (hold : document.historyBase ≤ message.revision)
    (hnew : message.revision ≤ first + log.length)
    (hr : textSystem.rebase message.operation (log.drop (message.revision - first)) = .ok rebased)
    (ha : Applies rebased document.text text) :
    document.receive message.revision message.operation =
      .ok (⟨document.revision + 1, rebased⟩, document.append text rebased) := by
  obtain ⟨since, window, reached⟩ := h
  have hw : document.history.drop ((message.revision : Int) - document.historyBase).toNat =
      log.drop (message.revision - first) := by
    rw [window, List.drop_drop]
    congr 1
    omega
  have h₁ : ¬(¬IsSafeInteger message.revision ∨ (message.revision : Int) < 0) := by
    rintro (h | h)
    · exact h hsafe
    · omega
  rw [CollabDocument.receive, if_neg h₁, if_neg (by omega), if_neg (by omega), hw,
    CollabDocument.rebase, hr]
  simp only [bind, Except.bind, ha.apply, CollabDocument.append_revision]
  rfl

/-! ## The invariant -/

/-- What a client has sent and the server not yet seen: at most one message,
which the server would now rebase to `expected`. -/
def InTransit (first : Nat) (log : List TextOperation) :
    List Outbound → Option TextOperation → Prop
  | [], expected => expected = none
  | [message], expected => ∃ rebased, expected = some rebased ∧
      message.revision ≤ first + log.length ∧ first ≤ message.revision ∧
      textSystem.rebase message.operation (log.drop (message.revision - first)) = .ok rebased
  | _ :: _ :: _, _ => False

namespace InTransit

variable {first : Nat} {log : List TextOperation} {toServer : List Outbound}

theorem toServer_nil (h : InTransit first log toServer none) : toServer = [] := by
  match toServer, h with
  | [], _ => rfl
  | [_], ⟨_, hr, _⟩ => cases hr

theorem carried {x x' q q' : TextOperation} (h : InTransit first log toServer (some x))
    (hc : transformOperations x q = .ok (x', q')) :
    InTransit first (log ++ [q]) toServer (some x') := by
  match toServer, h with
  | [], h => cases h
  | [message], ⟨rebased, hr, hle, hs, hreb⟩ =>
    obtain rfl := Option.some.inj hr
    refine ⟨x', rfl, ?_, hs, ?_⟩
    · rw [List.length_append]
      exact Nat.le_trans hle (by omega)
    · rw [List.drop_append_of_le_length (by omega)]
      exact OpSystem.rebase_snoc hreb hc

end InTransit

/-- A client's editor is ahead of the server text `base` it has seen; its queue
brings it to the document's text, with `expected` still in flight. -/
structure Follows (first : Nat) (log : List TextOperation) (content : Text)
    (peer : SimulatedClient) (base : Text) (expected : Option TextOperation) : Prop where
  ahead : peer.client.Ahead base peer.text
  since : first ≤ peer.client.serverRevision
  behind : peer.client.serverRevision ≤ first + log.length
  delivers : Delivers textSystem base peer.client.outstanding peer.fromServer
    (log.drop (peer.client.serverRevision - first)) content expected
  transit : InTransit first log peer.toServer expected

namespace Follows

variable {first : Nat} {log : List TextOperation} {content : Text} {peer : SimulatedClient}
  {base : Text} {expected : Option TextOperation}

variable {x : TextOperation} {operation : TextOperation} {rest : List Inbound}

theorem outstanding_acts (h : Follows first log content peer base expected)
    (hx : peer.client.outstanding = some x) : ∃ base', Applies x base base' := by
  have ha := h.ahead
  unfold CollaborativeClient.Ahead at ha
  rw [hx] at ha
  split at ha
  · contradiction
  · rename_i he _
    exact Option.some.inj he ▸ ⟨_, ha⟩
  · rename_i he _
    obtain ⟨middle, hm, -⟩ := ha
    exact Option.some.inj he ▸ ⟨middle, hm⟩

theorem expected_acts (h : Follows first log content peer base expected) (hx : expected = some x) :
    ∃ content', Applies x content content' := by
  subst hx
  have hd := h.delivers
  cases ho : peer.client.outstanding with
  | none =>
    rw [ho] at hd
    exact absurd hd.none_out (Option.some_ne_none x)
  | some y =>
    rw [ho] at hd
    obtain ⟨base', hy⟩ := h.outstanding_acts ho
    exact hd.acts_out hy

theorem expected_none (h : Follows first log content peer base expected)
    (ho : peer.client.outstanding = none) : expected = none := by
  have hd := h.delivers
  rw [ho] at hd
  exact hd.none_out

/-! One event at a time. -/

theorem edit (h : Follows first log content peer base expected) (hw : operation.WellFormed)
    (hb : operation.baseLength = peer.text.length) : ∃ next, peer.edit operation = .ok next ∧
      ∃ expected', Follows first log content next base expected' := by
  obtain ⟨text, ho⟩ := Applies.of_base_length hw hb
  obtain ⟨action, client, hl, ha, hr, hsend⟩ := applyLocal_spec h.ahead ho
  refine ⟨{ peer with text, client, toServer := peer.toServer ++ action.send.toList }, ?_, ?_⟩
  · simp only [SimulatedClient.edit, ho.apply, hl, bind, Except.bind]
    rfl
  rcases hsend with ⟨hout, hout', hs⟩ | ⟨-, hout', hs⟩
  · -- nothing was in flight, so the server rebases the edit over what is queued
    have htext : peer.text = base := by
      have := h.ahead
      unfold CollaborativeClient.Ahead at this
      rwa [hout] at this
    have hd := h.delivers
    rw [hout, ← htext] at hd
    obtain ⟨rebased, hd', hreb⟩ := hd.start (x := operation) ho
    refine ⟨some rebased, ha, ?_, ?_, ?_, ?_⟩
    · rw [hr]; exact h.since
    · rw [hr]; exact h.behind
    · rw [hr, hout', ← htext]; exact hd'
    · have ht := h.transit
      rw [h.expected_none hout] at ht
      rw [ht.toServer_nil, hs]
      exact ⟨rebased, rfl, h.behind, h.since, hreb⟩
  · refine ⟨expected, ha, ?_, ?_, ?_, ?_⟩
    · rw [hr]; exact h.since
    · rw [hr]; exact h.behind
    · rw [hr, hout']; exact h.delivers
    · rw [hs, Option.toList_none, List.append_nil]; exact h.transit

theorem next_entry (h : Follows first log content peer base expected) {message : Inbound}
    (hq : peer.fromServer = message :: rest) :
    ∃ entry, log.drop (peer.client.serverRevision - first) =
        entry :: log.drop (peer.client.serverRevision + 1 - first) ∧
      peer.client.serverRevision + 1 ≤ first + log.length := by
  have hlen := h.delivers.length_eq
  have hsince := h.since
  rw [hq, List.length_drop, List.length_cons] at hlen
  have hlt : peer.client.serverRevision - first < log.length := by omega
  refine ⟨log[peer.client.serverRevision - first], ?_, by omega⟩
  rw [List.drop_eq_getElem_cons hlt,
    show peer.client.serverRevision + 1 - first = peer.client.serverRevision - first + 1 by omega]

theorem receive_ack (h : Follows first log content peer base expected)
    (hq : peer.fromServer = .ack :: rest) : ∃ next, peer.receive = .ok next ∧
      ∃ base' expected', Follows first log content next base' expected' := by
  obtain ⟨entry, hentry, hlt⟩ := h.next_entry hq
  have hd := h.delivers
  rw [hq, hentry] at hd
  obtain ⟨hout, base', hx, hd'⟩ := hd.head_ack
  obtain ⟨action, client, hack, hnone, ha, hr, hsend⟩ := acknowledge_spec h.ahead hout hx
  refine ⟨⟨peer.text, client, peer.toServer ++ action.send.toList, rest⟩, ?_, base', ?_⟩
  · simp only [SimulatedClient.receive, hq, SimulatedClient.handle, hack, bind, Except.bind,
      hnone]
    rfl
  have hsince : first ≤ client.serverRevision := by rw [hr]; exact Nat.le_succ_of_le h.since
  have hbehind : client.serverRevision ≤ first + log.length := by rw [hr]; exact hlt
  -- the server took what was in flight, so nothing can be on its way to it
  have hempty : expected = none := hd'.none_out
  have htransit := h.transit
  rcases hsend with ⟨hout', hs⟩ | ⟨buffer, hout', hb, hs⟩
  · refine ⟨expected, ha, hsince, hbehind, ?_, ?_⟩
    · rw [hr, hout']; exact hd'
    · rw [hs, Option.toList_none, List.append_nil]; exact htransit
  · obtain ⟨rebased, hd'', hreb⟩ := hd'.start (x := buffer) hb
    refine ⟨some rebased, ha, hsince, hbehind, ?_, ?_⟩
    · rw [hr, hout']; exact hd''
    · rw [hempty] at htransit
      rw [htransit.toServer_nil, hs]
      exact ⟨rebased, rfl, hbehind, hsince, by rw [hr]; exact hreb⟩

theorem receive_op (h : Follows first log content peer base expected)
    (hq : peer.fromServer = .op operation :: rest) : ∃ next, peer.receive = .ok next ∧
      ∃ base' expected', Follows first log content next base' expected' := by
  obtain ⟨entry, hentry, hlt⟩ := h.next_entry hq
  have hd := h.delivers
  rw [hq, hentry] at hd
  obtain ⟨base', ho, hd'⟩ := hd.head_op
  obtain ⟨action, client, text, applied, happ, rfl, hap, ha, hr, hout⟩ :=
    applyServer_spec h.ahead ho
  refine ⟨⟨text, client, peer.toServer, rest⟩, ?_, base', expected, ?_⟩
  · simp only [SimulatedClient.receive, hq, SimulatedClient.handle, happ, bind, Except.bind,
      hap.apply, Option.toList_none, List.append_nil]
    rfl
  refine ⟨ha, ?_, ?_, ?_, h.transit⟩
  · rw [hr]; exact Nat.le_succ_of_le h.since
  · rw [hr]; exact hlt
  · -- client and queue carried what is in flight over the same operation
    rcases hd' with ⟨hnone, hd'⟩ | ⟨x, x', q', hsome, hc, hd'⟩
    · rw [hnone] at hout
      rw [hr, hout]
      exact hd'
    · rw [hsome] at hout
      obtain ⟨y, r, hc', hy⟩ := hout
      obtain ⟨rfl, -⟩ := Prod.mk.inj (Except.ok.inj (hc'.symm.trans hc))
      rw [hr, hy]
      exact hd'

theorem receive (h : Follows first log content peer base expected) :
    ∃ next, peer.receive = .ok next ∧
      ∃ base' expected', Follows first log content next base' expected' := by
  rcases hq : peer.fromServer with _ | ⟨_ | operation, rest⟩
  · exact ⟨peer, by rw [SimulatedClient.receive, hq], base, expected, h⟩
  · exact h.receive_ack hq
  · exact h.receive_op hq

theorem taken (h : Follows first log content peer base (some x)) {content' : Text}
    (hx : Applies x content content') {message : Outbound} {toServer : List Outbound}
    (hs : peer.toServer = message :: toServer) : Follows first (log ++ [x]) content'
      { peer with toServer, fromServer := peer.fromServer ++ [.ack] } base none where
  ahead := h.ahead
  since := h.since
  behind := by
    rw [List.length_append]
    exact Nat.le_trans h.behind (by omega)
  delivers := by
    have hb := h.behind
    have hlog : (log ++ [x]).drop (peer.client.serverRevision - first) =
        log.drop (peer.client.serverRevision - first) ++ [x] :=
      List.drop_append_of_le_length (by omega)
    rw [hlog]
    exact h.delivers.snoc_ack hx
  transit := by
    have ht := h.transit
    rw [hs] at ht
    match toServer, ht with
    | [], _ => rfl

theorem broadcast (h : Follows first log content peer base expected) {content' : Text}
    (hx : Applies x content content') : ∃ expected', Follows first (log ++ [x]) content'
      { peer with fromServer := peer.fromServer ++ [.op x] } base expected' := by
  have hb := h.behind
  have hs := h.since
  have hbehind : peer.client.serverRevision ≤ first + (log ++ [x]).length := by
    rw [List.length_append]
    exact Nat.le_trans hb (by omega)
  have hlog : (log ++ [x]).drop (peer.client.serverRevision - first) =
      log.drop (peer.client.serverRevision - first) ++ [x] :=
    List.drop_append_of_le_length (by omega)
  rcases expected with _ | y
  · refine ⟨none, h.ahead, hs, hbehind, ?_, ?_⟩
    · rw [hlog]; exact h.delivers.snoc_op hx
    · have ht := h.transit
      exact ht.toServer_nil ▸ rfl
  · obtain ⟨after, hy⟩ := h.expected_acts rfl
    obtain ⟨y', x', merged, hc, hy', -⟩ := transformOperations_spec hy hx
    refine ⟨some y', h.ahead, hs, hbehind, ?_, ?_⟩
    · rw [hlog]; exact h.delivers.snoc_opOver hx hc
    · exact h.transit.carried hc

end Follows

/-- Every client follows one log, the one the document remembers the end of. -/
def Invariant {ι : Type} (self : Simulation ι) : Prop :=
  ∃ first log, Remembers self.document first log ∧
    ∀ index, ∃ base expected,
      Follows first log self.document.text (self.clients index) base expected

theorem start_invariant {ι : Type} (document : CollabDocument) :
    Invariant (Simulation.start document : Simulation ι) := by
  refine ⟨document.historyBase, document.history, ⟨Nat.le_refl _, by simp [Simulation.start], rfl⟩,
    fun _ => ⟨document.text, none, ?_⟩⟩
  have hr : document.revision - document.historyBase = document.history.length := by
    simp [CollabDocument.revision]
  exact {
    ahead := rfl
    since := Nat.le_add_right _ _
    behind := Nat.le_refl _
    delivers := by
      simp only [Simulation.start, SimulatedClient.new, CollaborativeClient.new, hr,
        List.drop_length]
      exact .nil _ _
    transit := rfl }

/-! ## Runs -/

variable {ι : Type} [DecidableEq ι]

theorem Invariant.update {self : Simulation ι} (h : Invariant self) {index : ι}
    {next : SimulatedClient}
    (hn : ∀ {first log base expected},
      Follows first log self.document.text (self.clients index) base expected →
      ∃ base' expected', Follows first log self.document.text next base' expected') :
    Invariant { self with clients := Function.update self.clients index next } := by
  obtain ⟨first, log, hlog, hclients⟩ := h
  refine ⟨first, log, hlog, fun other => ?_⟩
  by_cases ho : other = index
  · subst ho
    obtain ⟨base, expected, hf⟩ := hclients other
    simpa using hn hf
  · simpa [ho] using hclients other

theorem deliverToServer_invariant {self : Simulation ι} (h : Invariant self) (index : ι)
    (hallowed : self.Allowed (.deliverToServer index)) :
    ∃ next, self.deliverToServer index = .ok next ∧ Invariant next := by
  rcases hm : (self.clients index).toServer with _ | ⟨message, toServer⟩
  · exact ⟨self, by rw [Simulation.deliverToServer, hm], h⟩
  obtain ⟨hsafe, hold⟩ := hallowed message (by rw [hm]; rfl)
  obtain ⟨first, log, hlog, hclients⟩ := h
  obtain ⟨base, expected, hf⟩ := hclients index
  -- the server rebases the message to exactly what the sender expects
  obtain ⟨rebased, rfl, hnew, hreb⟩ : ∃ rebased, expected = some rebased ∧
      message.revision ≤ first + log.length ∧
      textSystem.rebase message.operation (log.drop (message.revision - first)) =
        .ok rebased := by
    have ht := hf.transit
    rw [hm] at ht
    match toServer, ht with
    | [], ⟨rebased, he, hle, _, hr⟩ => exact ⟨rebased, he, hle, hr⟩
  obtain ⟨text, ha⟩ := hf.expected_acts rfl
  have hreceive := receive_spec hlog hsafe hold hnew hreb ha
  refine ⟨_, by simp only [Simulation.deliverToServer, hm, hreceive, bind, Except.bind]; rfl, ?_⟩
  refine ⟨first, log ++ [rebased], hlog.append text rebased, fun other => ?_⟩
  by_cases ho : other = index
  · subst ho
    exact ⟨base, none, by simpa using hf.taken ha hm⟩
  · obtain ⟨base', expected', hf'⟩ := hclients other
    obtain ⟨expected'', hb⟩ := hf'.broadcast ha
    exact ⟨base', expected'', by simpa [ho] using hb⟩

/-- **Every allowed turn succeeds and keeps the invariant.** -/
theorem step_invariant {self : Simulation ι} (h : Invariant self) {turn : Turn ι}
    (hallowed : self.Allowed turn) : ∃ next, self.step turn = .ok next ∧ Invariant next := by
  cases turn with
  | edit index operation =>
    obtain ⟨hw, hb⟩ := hallowed
    obtain ⟨next, he⟩ : ∃ next, (self.clients index).edit operation = .ok next := by
      obtain ⟨first, log, -, hclients⟩ := h
      obtain ⟨base, expected, hf⟩ := hclients index
      obtain ⟨next, he, -⟩ := hf.edit hw hb
      exact ⟨next, he⟩
    refine ⟨_, by simp only [Simulation.step, he, bind, Except.bind]; rfl, h.update fun hf => ?_⟩
    obtain ⟨next', he', expected', hf'⟩ := hf.edit hw hb
    obtain rfl := Except.ok.inj (he.symm.trans he')
    exact ⟨_, expected', hf'⟩
  | deliverToServer index => exact deliverToServer_invariant h index hallowed
  | receive index =>
    obtain ⟨next, he⟩ : ∃ next, (self.clients index).receive = .ok next := by
      obtain ⟨first, log, -, hclients⟩ := h
      obtain ⟨base, expected, hf⟩ := hclients index
      obtain ⟨next, he, -⟩ := hf.receive
      exact ⟨next, he⟩
    refine ⟨_, by simp only [Simulation.step, he, bind, Except.bind]; rfl, h.update fun hf => ?_⟩
    obtain ⟨next', he', hf'⟩ := hf.receive
    obtain rfl := Except.ok.inj (he.symm.trans he')
    exact hf'

theorem reaches_invariant {document : CollabDocument} {self : Simulation ι}
    (h : (Simulation.start document : Simulation ι).Reaches self) : Invariant self := by
  induction h with
  | start => exact start_invariant document
  | step _ allowed taken ih =>
    obtain ⟨next, he, hi⟩ := step_invariant ih allowed
    obtain rfl := Except.ok.inj (taken.symm.trans he)
    exact hi

theorem Follows.quiet {first : Nat} {log : List TextOperation} {content base : Text}
    {peer : SimulatedClient} {expected : Option TextOperation}
    (h : Follows first log content peer base expected) (hs : peer.toServer = [])
    (hq : peer.fromServer = []) :
    peer.client.synchronized = true ∧ peer.client.revision = first + log.length ∧
      peer.text = content := by
  have ht := h.transit
  have hd := h.delivers
  have hlen := hd.length_eq
  have hsince := h.since
  have hbehind := h.behind
  rw [hs] at ht
  rw [hq, List.length_drop, List.length_nil] at hlen
  obtain rfl : expected = none := ht
  have hnil : log.drop (peer.client.serverRevision - first) = [] :=
    List.eq_nil_of_length_eq_zero (by rw [List.length_drop]; omega)
  rw [hq, hnil] at hd
  obtain ⟨hbase, hout⟩ := hd.nil_eq
  have ha := h.ahead
  unfold CollaborativeClient.Ahead at ha
  rw [← hout] at ha
  refine ⟨by rw [CollaborativeClient.synchronized, ← hout]; rfl, ?_, ha.trans hbase.symm⟩
  rw [CollaborativeClient.revision]
  omega

/-- **Convergence.** In every run of edits and deliveries no allowed turn ever
throws, and whenever all queues are empty every client is synchronized, at the
document's revision and showing the document's text. -/
theorem converges (document : CollabDocument) {self : Simulation ι}
    (run : (Simulation.start document : Simulation ι).Reaches self) :
    (∀ turn, self.Allowed turn → ∃ next, self.step turn = .ok next) ∧
      (self.Quiet → ∀ index, (self.clients index).client.synchronized = true ∧
        (self.clients index).client.revision = self.document.revision ∧
        (self.clients index).text = self.document.content) := by
  have hi := reaches_invariant run
  refine ⟨fun turn allowed => ?_, fun quiet index => ?_⟩
  · obtain ⟨next, he, -⟩ := step_invariant hi allowed
    exact ⟨next, he⟩
  · obtain ⟨first, log, hlog, hclients⟩ := hi
    obtain ⟨base, expected, hf⟩ := hclients index
    obtain ⟨hs, hr, ht⟩ := hf.quiet (quiet index).1 (quiet index).2
    exact ⟨hs, hr.trans hlog.reached.symm, ht⟩

theorem follow_reaches {origin self last : Simulation ι} {turns : List (Turn ι)}
    (run : origin.Reaches self) (h : self.follow turns = some last) : origin.Reaches last := by
  induction turns generalizing self with
  | nil => exact Option.some.inj h ▸ run
  | cons turn turns ih =>
    rw [Simulation.follow] at h
    split at h
    · rename_i allowed
      obtain ⟨next, hn, h⟩ := Option.bind_eq_some_iff.mp h
      cases ht : self.step turn with
      | error e => rw [ht] at hn; cases hn
      | ok next' =>
        rw [ht] at hn
        obtain rfl := Option.some.inj hn
        exact ih (.step run allowed ht) h
    · cases h

/-- Both clients type into "ac" at offset 1 before either has seen the other,
and client 0 again while its first edit is in flight. -/
def sameOffset : List (Turn (Fin 2)) :=
  [.edit 0 ⟨[.number 1, .string [88], .number 1], 2, 3⟩,
    .edit 1 ⟨[.number 1, .string [89], .number 1], 2, 3⟩,
    .edit 0 ⟨[.number 3, .string [33]], 3, 4⟩,
    .deliverToServer 1, .receive 0, .deliverToServer 0, .receive 1, .receive 0, .receive 1,
    .deliverToServer 0, .receive 0, .receive 1]

theorem converges_sameOffset : ∃ self : Simulation (Fin 2),
    (Simulation.start (.new [97, 99])).Reaches self ∧ self.Quiet ∧
      self.document.content = [97, 88, 89, 99, 33] ∧
      ∀ index, (self.clients index).text = [97, 88, 89, 99, 33] := by
  have h : ((Simulation.start (.new [97, 99])).follow sameOffset).any (fun self =>
      self.Quiet ∧ self.document.content = [97, 88, 89, 99, 33]) := by decide +kernel
  obtain ⟨self, hs, hp⟩ := (Option.any_eq_true _ _).mp h
  obtain ⟨quiet, content⟩ := of_decide_eq_true hp
  have run := follow_reaches .start hs
  exact ⟨self, run, quiet, content,
    fun index => ((converges _ run).2 quiet index).2.2.trans content⟩

end AgenticGit.Collab
