import AgenticGit.Collab.Selections
import AgenticGit.Gateway.HubRooms

/- How long the text of a room can get. `handleOp` checks an operation's growth as its
   sender wrote it; what is applied is the operation rebased over everything that landed
   since, which deletes less when some of what it deletes is gone already.

   What is proved:
     1. `step_document` — only an operation of a client of the room changes its document.
     2. `step_within_iff` — an operation that is applied keeps the text within
        `maxDocumentUnits` exactly when what it deletes that is gone already fits too.
     3. `document_limit_iff` — the same of every run from a room's start on. -/
namespace AgenticGit.Gateway
open AgenticGit.Collab AgenticGit.Runs AgenticGit.Runtime AgenticGit.EditScript
open CollabWebSocketHub

/-! ## What changes a room's document -/

/-- Every room the hub had it still has, with the document it had. -/
def SameDocuments (hub hub' : CollabWebSocketHub) : Prop :=
  ∀ (r : RoomId) room, hub.objects[r]? = some room →
    ∃ room', hub'.objects[r]? = some room' ∧ room'.document = room.document

theorem SameDocuments.of_eq {hub hub' : CollabWebSocketHub} (h : hub'.objects = hub.objects) :
    SameDocuments hub hub' :=
  fun _ room hr => ⟨room, h ▸ hr, rfl⟩

theorem SameDocuments.trans {hub hub' hub'' : CollabWebSocketHub} (h : SameDocuments hub hub')
    (h' : SameDocuments hub' hub'') : SameDocuments hub hub'' := by
  intro r room hr
  obtain ⟨room', hr', he⟩ := h r room hr
  obtain ⟨room'', hr'', he'⟩ := h' r room' hr'
  exact ⟨room'', hr'', he'.trans he⟩

theorem SameDocuments.set {hub hub' : CollabWebSocketHub} {r : RoomId} {room room' : CollabRoom}
    (hr : hub.objects[r]? = some room) (h : hub'.objects = hub.objects.set r room')
    (hd : room'.document = room.document) : SameDocuments hub hub' := by
  intro i old hi
  have hset := getElem?_setObject hr room' i
  rw [setObject] at hset
  rw [h]
  by_cases he : i = r
  · subst he
    obtain rfl := Option.some.inj (hr.symm.trans hi)
    exact ⟨room', by rw [hset, if_pos rfl], hd⟩
  · exact ⟨old, by rw [hset, if_neg he, hi], rfl⟩

theorem join_documents (hub : CollabWebSocketHub) (r : RoomId) (principal : User) :
    SameDocuments hub (hub.join r principal) := by
  cases hr : hub.objects[r]? with
  | none =>
    unfold join
    rw [hr]
    exact .of_eq rfl
  | some room =>
    obtain ⟨_, room', _, _, _, hd, _, _, _, he⟩ := join_eq principal hr
    exact .set hr (by rw [he]) hd

theorem create_documents (hub : CollabWebSocketHub) (scope : RoomScope) (content : Text) :
    SameDocuments hub (hub.create scope content) := by
  intro r room hr
  refine ⟨room, ?_, rfl⟩
  rw [create, List.getElem?_append_left (List.getElem?_eq_some_iff.mp hr).1, hr]

theorem tryUpgrade_documents (hub : CollabWebSocketHub) (scope : RoomScope) (principal : User) :
    SameDocuments hub (hub.tryUpgrade scope principal) := by
  unfold tryUpgrade
  dsimp only
  split
  · split
    · exact .of_eq rfl
    · exact join_documents hub _ principal
  · split
    · exact .of_eq rfl
    · exact .of_eq rfl

theorem finishUpgrade_documents {hub hub' : CollabWebSocketHub} {call : CallId}
    {snapshot : Option FileSnapshot} (h : hub.finishUpgrade call snapshot = some hub') :
    SameDocuments hub hub' := by
  unfold finishUpgrade at h
  split at h
  · cases h
  · rename_i read hread
    dsimp only at h
    split at h
    · cases h
      exact .of_eq rfl
    · split at h
      · cases h
        exact .of_eq rfl
      · cases h
        refine .trans (.of_eq rfl) (.trans ?_ (join_documents _ _ _))
        exact create_documents { hub with reads := hub.reads.delete call } _ _

theorem forget_documents {hub hub' : CollabWebSocketHub} {p : ParticipantId}
    (h : hub.forget p = some hub') : SameDocuments hub hub' := by
  obtain ⟨client, room, -, -, hr, hub₁, room₁, rfl, rfl, ⟨-, rfl⟩ | ⟨-, rfl⟩⟩ := forget_eq h
  · exact .set hr rfl rfl
  · exact .set hr rfl rfl

theorem finishWrite_documents {hub hub' : CollabWebSocketHub} {call : CallId} {ok : Bool}
    (h : hub.finishWrite call ok = some hub') : SameDocuments hub hub' := by
  obtain ⟨write, room, -, -, hr, hub₁, rfl, hcases⟩ := finishWrite_eq h
  obtain ⟨-, -, rfl⟩ | ⟨-, -, rfl⟩ | ⟨-, -, rfl⟩ | ⟨-, -, rfl⟩ := hcases
  · exact .set hr rfl rfl
  · exact .of_eq rfl
  · exact .set hr rfl rfl
  · exact .set hr rfl rfl

theorem flushNext_documents {hub hub' : CollabWebSocketHub} (h : hub.flushNext = some hub') :
    SameDocuments hub hub' := by
  obtain ⟨sweep, -, -, ⟨-, rfl⟩ | ⟨_, _, _, -, -, rfl | ⟨-, -, ⟨-, rfl⟩ | ⟨-, rfl⟩⟩⟩⟩ :=
    flushNext_eq h
  all_goals exact .of_eq rfl

variable {change : CollabRoom → CollabRoom} {n : Nat}

/-- A message of a client leaves every room its document but the client's, and there it
does what the message says. -/
theorem handle_documents {hub hub' : CollabWebSocketHub} {p : ParticipantId}
    (h : hub.handle p change = some hub') :
    ∃ client room, hub.client? p = some client ∧ hub.objects[client.room]? = some room ∧
      (∀ (r : RoomId) room', r ≠ client.room → hub.objects[r]? = some room' →
        hub'.objects[r]? = some room') ∧
      hub'.objects[client.room]? = some (change (room.touch hub.now)) := by
  unfold handle at h
  split at h
  · cases h
  · rename_i client hc
    obtain ⟨room, hr, rfl⟩ := Option.map_eq_some_iff.mp h
    refine ⟨client, room, hc, hr, fun r room' hne hr' => ?_, ?_⟩
    · rw [getElem?_setObject hr, if_neg hne, hr']
    · rw [getElem?_setObject hr, if_pos rfl]

theorem handle_same {hub hub' : CollabWebSocketHub} {p : ParticipantId}
    (hchange : ∀ room, (change room).document = room.document) (h : hub.handle p change = some hub') :
    SameDocuments hub hub' := by
  obtain ⟨client, room, -, hr, hothers, hmine⟩ := handle_documents h
  intro r old hold
  by_cases he : r = client.room
  · subst he
    obtain rfl := Option.some.inj (hr.symm.trans hold)
    exact ⟨_, hmine, hchange _⟩
  · exact ⟨old, hothers r old he hold, rfl⟩

theorem handleSelection_same (p : ParticipantId) (revision : Int) (selection : SelectionRange)
    (room : CollabRoom) : (handleSelection room p revision selection).document = room.document := by
  unfold handleSelection
  split
  · rename_i h
    obtain ⟨_, hd, _, _⟩ := CollabRoom.setSelection_ok h
    exact hd
  · rfl

/-- The event is an operation of a client of the room. -/
def OperatesOn (hub : CollabWebSocketHub) (r : RoomId) : HubEvent → Prop
  | .op p _ _ _ => ∃ client, hub.client? p = some client ∧ client.room = r
  | _ => False

/-- **What changes a document**: an operation of a client of the room, and nothing else. -/
theorem step_document {hub hub' : CollabWebSocketHub} {e : HubEvent} {r : RoomId}
    {room : CollabRoom} (hs : step hub e = some hub') (hr : hub.objects[r]? = some room)
    (hno : ¬OperatesOn hub r e) :
    ∃ room', hub'.objects[r]? = some room' ∧ room'.document = room.document := by
  have same (h : SameDocuments hub hub') : ∃ room', hub'.objects[r]? = some room' ∧
      room'.document = room.document := h r room hr
  cases e with
  | tick elapsed =>
    cases hs
    exact same (.of_eq rfl)
  | upgrade scope principal =>
    cases hs
    exact same (tryUpgrade_documents hub scope principal)
  | read call snapshot => exact same (finishUpgrade_documents hs)
  | op p revision operation selection =>
    replace hs : hub.handle p (fun room => handleOp room p revision operation selection) =
      some hub' := hs
    obtain ⟨client, _, hc, _, hothers, _⟩ := handle_documents hs
    have hne : r ≠ client.room := fun he => hno ⟨client, hc, he.symm⟩
    exact ⟨room, hothers r room hne hr, rfl⟩
  | selection p revision selection =>
    exact same (handle_same (handleSelection_same p revision selection) hs)
  | resync p => exact same (handle_same (fun _ => rfl) hs)
  | save p =>
    replace hs : hub.save p = some hub' := hs
    unfold save at hs
    split at hs
    · cases hs
    · rename_i client hc
      obtain ⟨room', hroom, rfl⟩ := Option.map_eq_some_iff.mp hs
      exact same (.set hroom rfl rfl)
  | land call =>
    replace hs : hub.land call = some hub' := hs
    unfold land at hs
    split at hs
    · cases hs
    · split at hs
      · cases hs
      · cases hs
        exact same (.of_eq rfl)
  | written call ok => exact same (finishWrite_documents hs)
  | disconnect p => exact same (forget_documents hs)
  | sweep =>
    replace hs : hub.startSweep = some hub' := hs
    unfold startSweep at hs
    split at hs
    · cases hs
    · cases hs
      exact same (.of_eq rfl)
  | flush => exact same (flushNext_documents hs)

/-! ## One step -/

def WithinLimit (hub : CollabWebSocketHub) (r : RoomId) : Prop :=
  ∀ room ∈ hub.objects[r]?, (room.document.content.length : Int) ≤ maxDocumentUnits

/-- The operation an event carries, if any, is as a builder builds it. -/
def BuiltEvent : HubEvent → Prop
  | .op _ _ operation _ => operation.WellFormed
  | _ => True

/-- Where the room applies the operation of one of its participants, there is room as well
for what the operation counted on deleting and others have deleted since. -/
def FitsLimit (hub : CollabWebSocketHub) (r : RoomId) : HubEvent → Prop
  | .op p revision operation _ =>
    ∀ client ∈ hub.client? p, client.room = r → ∀ room ∈ hub.objects[r]?,
      room.members.has p = true → Takes room.document revision operation →
      room.document.content.length + max (operation.targetLength - operation.baseLength) 0 ≤
        maxDocumentUnits →
      room.document.content.length + (operation.targetLength - operation.baseLength) +
        alreadyDeleted room.document revision operation ≤ maxDocumentUnits
  | _ => True

def RoomRetains (hub : CollabWebSocketHub) (r : RoomId) : Prop :=
  ∃ room, hub.objects[r]? = some room ∧ Retains room.document

theorem receive_document {room : CollabRoom} {p : ParticipantId} {revision : Int}
    {operation : TextOperation} {document : CollabDocument} {applied : AppliedOperation}
    (selection : Option SelectionRange) (hhas : room.members.has p = true)
    (h : room.document.receive revision operation = .ok (applied, document)) :
    ∃ room', room.receive p revision operation selection = .ok (applied, room') ∧
      room'.document = document := by
  obtain ⟨room', hroom, hd, -, -⟩ :=
    receiveAs_ok integers (selection.map fun s => ⟨s.anchor, s.head⟩) hhas h
  rw [receiveAs_integers] at hroom
  exact ⟨room', hroom, hd⟩

/-- **What `handleOp` does to the length of a text.** -/
theorem handleOp_within {room : CollabRoom} (hretains : Retains room.document)
    (hwithin : (room.document.content.length : Int) ≤ maxDocumentUnits) {p : ParticipantId}
    {revision : Int} {operation : TextOperation} (hw : operation.WellFormed)
    (selection : Option SelectionRange) :
    Retains (handleOp room p revision operation selection).document ∧
      (((handleOp room p revision operation selection).document.content.length : Int) ≤
          maxDocumentUnits ↔
        (room.members.has p = true → Takes room.document revision operation →
          room.document.content.length + max (operation.targetLength - operation.baseLength) 0 ≤
            maxDocumentUnits →
          room.document.content.length + (operation.targetLength - operation.baseLength) +
            alreadyDeleted room.document revision operation ≤ maxDocumentUnits)) := by
  by_cases hgrowth : room.document.content.length +
      max (operation.targetLength - operation.baseLength) 0 > maxDocumentUnits
  · have hsame : handleOp room p revision operation selection = room := if_pos hgrowth
    rw [hsame]
    exact ⟨hretains, iff_of_true hwithin fun _ _ hle => absurd hle (not_le.mpr hgrowth)⟩
  · have hunfold (result : Except CollabError (AppliedOperation × CollabRoom))
        (h : room.receive p revision operation selection = result) :
        handleOp room p revision operation selection = (result.toOption.map (·.2)).getD room := by
      rw [handleOp, if_neg hgrowth, h]
      cases result with
      | ok answer => rfl
      | error e => rfl
    by_cases hhas : room.members.has p = true
    · obtain ⟨hnot, e, he⟩ | ⟨htakes, applied, document, hok, -, hnext, hlength⟩ :=
        @receive_length _ hretains revision _ hw
      · have herror : room.receive p revision operation selection = .error e := by
          rw [CollabRoom.receive, if_neg (not_not.mpr hhas), he]
          rfl
        rw [hunfold _ herror]
        exact ⟨hretains, iff_of_true hwithin fun _ htakes => absurd htakes hnot⟩
      · obtain ⟨room', hroom, rfl⟩ := receive_document selection hhas hok
        rw [hunfold _ hroom]
        refine ⟨hnext, ?_⟩
        show (room'.document.text.length : Int) ≤ maxDocumentUnits ↔ _
        rw [hlength, lengthAfter_eq hw]
        exact ⟨fun hle _ _ _ => hle, fun hle => hle hhas htakes (not_lt.mp hgrowth)⟩
    · have herror : ∃ e, room.receive p revision operation selection = .error e :=
        ⟨_, if_pos hhas⟩
      obtain ⟨e, he⟩ := herror
      rw [hunfold _ he]
      exact ⟨hretains, iff_of_true hwithin fun h => absurd h hhas⟩

/-- **One step.** A room within the limit stays there exactly when the event fits. -/
theorem step_within_iff {hub hub' : CollabWebSocketHub} {e : HubEvent} {r : RoomId}
    (hretains : RoomRetains hub r) (hwithin : WithinLimit hub r) (hb : BuiltEvent e)
    (hs : step hub e = some hub') :
    RoomRetains hub' r ∧ (WithinLimit hub' r ↔ FitsLimit hub r e) := by
  obtain ⟨room, hr, hret⟩ := hretains
  have hle := hwithin room hr
  by_cases hop : OperatesOn hub r e
  · cases e with
    | op p revision operation selection =>
      obtain ⟨client, hc, rfl⟩ := hop
      replace hs : hub.handle p (fun room => handleOp room p revision operation selection) =
        some hub' := hs
      obtain ⟨client', room', hc', hr', -, hafter⟩ := handle_documents hs
      obtain rfl := Option.some.inj (hc.symm.trans hc')
      obtain rfl := Option.some.inj (hr.symm.trans hr')
      obtain ⟨hnext, hiff⟩ := @handleOp_within (room.touch hub.now) hret hle p revision operation
        hb selection
      refine ⟨⟨_, hafter, hnext⟩, ?_⟩
      constructor
      · intro hin client' hclient' _ room' hroom'
        obtain rfl := Option.some.inj (hr.symm.trans hroom')
        exact hiff.mp (hin _ hafter)
      · intro hfits room' hroom'
        obtain rfl := Option.some.inj (hafter.symm.trans hroom')
        exact hiff.mpr (hfits client hc rfl room hr)
    | _ => exact hop.elim
  · obtain ⟨room', hr', hd⟩ := step_document hs hr hop
    refine ⟨⟨room', hr', hd ▸ hret⟩, iff_of_true ?_ ?_⟩
    · intro room'' hr''
      obtain rfl := Option.some.inj (hr'.symm.trans hr'')
      rw [hd]
      exact hle
    · cases e with
      | op p revision operation selection =>
        intro client hc hroom
        exact absurd ⟨client, hc, hroom⟩ hop
      | _ => trivial

/-! ## Every run -/

/-- **When the size limit holds.** For every hub with a room that has just been created
over a text within the limit, and every run of it from there on, with operations as a
builder builds them: the room's text is within the limit in every state reached, if and
only if every operation applied to the room fits, with what it deletes that others have
deleted since counted as not deleted. -/
theorem document_limit_iff {start hub : CollabWebSocketHub} {r : RoomId} {room : CollabRoom}
    {content : Text} (hroom : start.objects[r]? = some room)
    (hnew : room.document = CollabDocument.new content)
    (hcontent : (content.length : Int) ≤ maxDocumentUnits) {events : List HubEvent}
    (hb : ∀ e ∈ events, BuiltEvent e) (hrun : run step start events = some hub) :
    (∀ past reached, past <+: events → run step start past = some reached →
        WithinLimit reached r) ↔
      Throughout step (fun hub => FitsLimit hub r) start events := by
  have hretains : RoomRetains start r := ⟨room, hroom, hnew ▸ retains_new content⟩
  have hwithin : WithinLimit start r := by
    intro room' hr'
    obtain rfl := Option.some.inj (hroom.symm.trans hr')
    rw [hnew]
    exact hcontent
  clear hroom hnew
  induction events generalizing start with
  | nil =>
    refine iff_of_true (fun past reached hp hpast => ?_) trivial
    obtain rfl := List.prefix_nil.mp hp
    obtain rfl := Option.some.inj hpast
    exact hwithin
  | cons e events ih =>
    obtain ⟨hbe, hbs⟩ := List.forall_mem_cons.mp hb
    obtain ⟨next, hs, hrest⟩ := run_cons hrun
    obtain ⟨hretains', hiff⟩ := step_within_iff hretains hwithin hbe hs
    constructor
    · intro hall
      have hnext : WithinLimit next r :=
        hall [e] next (List.prefix_cons_inj e |>.mpr List.nil_prefix) (by rw [run, hs]; rfl)
      refine ⟨hiff.mp hnext, fun t ht => ?_⟩
      obtain rfl := Option.some.inj (hs.symm.trans ht)
      refine (ih hbs hrest hretains' hnext).mp fun past reached hp hpast => ?_
      exact hall (e :: past) reached ((List.prefix_cons_inj e).mpr hp)
        (by rw [run, hs]; exact hpast)
    · rintro ⟨hfits, hthrough⟩ past reached hp hpast
      have hnext := hiff.mpr hfits
      cases past with
      | nil =>
        obtain rfl := Option.some.inj hpast
        exact hwithin
      | cons e' past =>
        obtain ⟨rfl, htail⟩ := List.cons_prefix_cons.mp hp
        rw [run, hs] at hpast
        exact (ih hbs hrest hretains' hnext).mpr (hthrough next hs) past reached htail hpast

/-! A text as long as may be. Its first unit is deleted, another is typed in its place, and
then a client that has seen neither replaces the first unit: the operation it sends does
not make the text longer, and there is nothing left for it to delete. -/

def opening (content : Text) : List HubEvent :=
  [.upgrade notes ada, .read 0 (some ⟨content, false, false⟩)]

/-- The three operations, for a text of `n + 1` units. -/
def deleteOne (n : Nat) : TextOperation := createOperation [.number (-1), .number n]
def typeOne (n : Nat) : TextOperation := createOperation [.string [97], .number n]
def replaceOne (n : Nat) : TextOperation := createOperation [.string [98], .number (-1), .number n]

def replacing (n : Nat) : List HubEvent :=
  [.op 0 0 (deleteOne n) none, .op 0 1 (typeOne n) none, .op 0 0 (replaceOne n) none]

/-- What there is to know of an operation: it is built, and its script and its two lengths. -/
structure Amounts (operation : TextOperation) (script : Script CodeUnit) (base target : Nat) :
    Prop where
  wellFormed : operation.WellFormed
  script : operation.script = script
  base : operation.baseLength = base
  target : operation.targetLength = target

theorem amounts {components : List OperationComponent} (h : Canonical components)
    {script : Script CodeUnit} (hs : scriptOf components = script) :
    Amounts (createOperation components) script (baseLen script) (targetLen script) := by
  have hw := (createOperation_built components).wellFormed
  have hscript := (createOperation_script h).trans hs
  exact ⟨hw, hscript, by rw [hw.base, hscript], by rw [hw.target, hscript]⟩

theorem deleteOne_amounts (h : 0 < n) : Amounts (deleteOne n) (.drop :: keeps n) (n + 1) n := by
  have hs : scriptOf [.number (-1), .number n] = .drop :: keeps n := by
    simp [script_delete (show (-1 : Int) < 0 by omega), script_retain (Int.natCast_pos.mpr h)]
  have hc : Canonical [.number (-1), .number n] :=
    ⟨by simp [OperationComponent.Proper]; omega, by simp [OperationComponent.Precedes]; omega⟩
  simpa [deleteOne, baseLen, targetLen] using amounts hc hs

theorem typeOne_amounts (h : 0 < n) : Amounts (typeOne n) (.put 97 :: keeps n) n (n + 1) := by
  have hs : scriptOf [.string [97], .number n] = .put 97 :: keeps n := by
    simp [script_string, script_retain (Int.natCast_pos.mpr h)]
  have hc : Canonical [.string [97], .number n] :=
    ⟨by simp [OperationComponent.Proper]; omega, by simp [OperationComponent.Precedes]⟩
  simpa [typeOne, baseLen, targetLen] using amounts hc hs

theorem replaceOne_amounts (h : 0 < n) :
    Amounts (replaceOne n) (.put 98 :: .drop :: keeps n) (n + 1) (n + 1) := by
  have hs : scriptOf [.string [98], .number (-1), .number n] = .put 98 :: .drop :: keeps n := by
    simp [script_string, script_delete (show (-1 : Int) < 0 by omega),
      script_retain (Int.natCast_pos.mpr h)]
  have hc : Canonical [.string [98], .number (-1), .number n] :=
    ⟨by simp [OperationComponent.Proper]; omega, by simp [OperationComponent.Precedes]; omega⟩
  simpa [replaceOne, baseLen, targetLen] using amounts hc hs

theorem receive_current {document : CollabDocument} (hretains : Retains document)
    {operation : TextOperation} (hw : operation.WellFormed) {revision : Int}
    (hrevision : revision = document.revision) (hsafe : IsSafeInteger revision)
    (hlength : operation.baseLength = document.text.length) :
    ∃ applied text, document.receive revision operation =
        .ok (applied, document.append text operation) ∧ Applies operation document.text text := by
  have hwindow : windowSince document revision = [] := by
    rw [windowSince, List.drop_eq_nil_iff, hrevision, CollabDocument.revision]
    omega
  have htakes : Takes document revision operation := by
    refine ⟨hsafe, ?_, by omega, ?_⟩
    · rw [hrevision, CollabDocument.revision]
      omega
    · rw [lengthAt, hwindow]
      exact hlength
  obtain ⟨rebased, text, happ, -, he⟩ := htakes.receive hretains hw
  obtain ⟨-, -, rebased', text', hrebase, htext', hnext, -⟩ := CollabDocument.receive_ok he
  rw [show document.history.drop (revision - document.historyBase).toNat = [] from hwindow]
    at hrebase
  obtain rfl := Except.ok.inj hrebase
  obtain ⟨text'', happ'⟩ := Applies.of_base_length hw hlength
  obtain rfl := Except.ok.inj (htext'.symm.trans happ'.apply)
  rw [hnext] at he
  exact ⟨_, _, he, happ'⟩

theorem run_append_eq {s t : CollabWebSocketHub} {es : List HubEvent} (fs : List HubEvent)
    (h : run step s es = some t) : run step s (es ++ fs) = run step t fs := by
  induction es generalizing s with
  | nil =>
    obtain rfl := Option.some.inj h
    rfl
  | cons e es ih =>
    obtain ⟨next, hs, hrest⟩ := run_cons h
    rw [List.cons_append, run, hs]
    exact ih hrest

/-- The hub with the room of the file, and its client in it. -/
structure Opened (hub : CollabWebSocketHub) (document : CollabDocument) : Prop where
  client : hub.client? 0 = some ⟨ada, 0, 0⟩
  room : ∃ room, hub.objects[0]? = some room ∧ room.members.has 0 = true ∧
    room.document = document

theorem opening_opens (content : Text) :
    ∃ hub, run step (.new 300000 (by decide) 0 .empty) (opening content) = some hub ∧
      Opened hub (CollabDocument.new content) := by
  have howner : notes.ownerUserId = ada.id := by decide
  have hupgrade : step (.new 300000 (by decide) 0 .empty) (.upgrade notes ada) =
      some { CollabWebSocketHub.new 300000 (by decide) 0 .empty with
        calls := 1
        reads := OrderedMap.empty.set 0 ⟨notes, ada⟩ } := by
    simp only [step, tryUpgrade, howner, ne_eq, not_true, decide_false]
    rfl
  refine ⟨_, by rw [opening, run, hupgrade]; rfl, rfl, _, rfl, rfl, rfl⟩

theorem Opened.op {hub : CollabWebSocketHub} {document document' : CollabDocument}
    (h : Opened hub document) {revision : Int} {operation : TextOperation}
    {applied : AppliedOperation}
    (hgrowth : document.content.length + max (operation.targetLength - operation.baseLength) 0 ≤
      maxDocumentUnits)
    (hok : document.receive revision operation = .ok (applied, document')) :
    ∃ hub', step hub (.op 0 revision operation none) = some hub' ∧ Opened hub' document' := by
  obtain ⟨hclient, room, hroom, hhas, rfl⟩ := h
  obtain ⟨room', hreceive, rfl⟩ := @receive_document (room.touch hub.now) 0 revision operation
    document' applied none hhas hok
  have hop : handleOp (room.touch hub.now) 0 revision operation none = room' := by
    have hle : ¬((room.touch hub.now).document.content.length : Int) +
        max (operation.targetLength - operation.baseLength) 0 > maxDocumentUnits :=
      not_lt.mpr hgrowth
    simp only [handleOp, hle, if_false, hreceive]
  have hseats := (handleOp_seats (room.touch hub.now) 0 revision operation none).1.has 0
  rw [hop] at hseats
  have hstep : step hub (.op 0 revision operation none) = some (hub.setObject 0 room') := by
    simp only [step, handle, hclient, hroom, Option.map_some, hop]
  refine ⟨_, hstep, hclient, room', ?_, hseats.trans hhas, rfl⟩
  rw [getElem?_setObject hroom, if_pos rfl]

theorem replacing_leaves (h : 0 < n) : leftToDelete [deleteOne n, typeOne n] (replaceOne n) = 0 ∧
      inserted (replaceOne n).script = 1 := by
  have hkept : act (keeps n) (List.replicate n false) = some (List.replicate n false) := by
    have hact := act_keeps (List.replicate n false)
    rwa [List.length_replicate] at hact
  have hflags : flagsAfter [deleteOne n, typeOne n] (dropped (replaceOne n).script) =
      some (false :: List.replicate n false) := by
    simp only [flagsAfter, List.foldlM_cons, List.foldlM_nil, (deleteOne_amounts h).script,
      (typeOne_amounts h).script, (replaceOne_amounts h).script, blank_cons, Atom.blank, dropped,
      dropped_keeps, blank_keeps, act, hkept, Option.bind_eq_bind, Option.bind_some,
      Option.map_some]
    rfl
  refine ⟨?_, ?_⟩
  · rw [leftToDelete, hflags]
    simp [List.count_replicate]
  · rw [(replaceOne_amounts h).script, inserted, inserted, inserted_keeps]

/-- **What the three operations leave**: a text one unit longer than it was. -/
theorem replacing_grows (hn : 0 < n) {content : Text} (hlength : content.length = n + 1)
    (hmax : (n : Int) + 1 ≤ maxDocumentUnits) :
    ∃ hub document, run step (.new 300000 (by decide) 0 .empty)
        (opening content ++ replacing n) = some hub ∧ Opened hub document ∧
      document.content.length = n + 2 := by
  have hA := deleteOne_amounts hn
  have hC := typeOne_amounts hn
  have hB := replaceOne_amounts hn
  obtain ⟨hub₀, hrun₀, h₀⟩ := opening_opens content
  have hret₀ := retains_new content
  obtain ⟨_, text₁, hreceive₁, happ₁⟩ := @receive_current _ hret₀ (deleteOne n) hA.wellFormed 0
    rfl (by decide) (by rw [hA.base]; exact congrArg Nat.cast hlength.symm)
  have hret₁ := hret₀.append happ₁
  have hlength₁ : text₁.length = n := by
    have := happ₁.target_length
    rw [hA.target] at this
    omega
  obtain ⟨hub₁, hstep₁, h₁⟩ := h₀.op (by
    rw [hA.target, hA.base]
    show (content.length : Int) + _ ≤ _
    omega) hreceive₁
  obtain ⟨_, text₂, hreceive₂, happ₂⟩ := @receive_current _ hret₁ (typeOne n) hC.wellFormed 1
    (by rw [CollabDocument.append_revision]; rfl) (by decide)
    (by rw [hC.base]; exact congrArg Nat.cast hlength₁.symm)
  have hret₂ := hret₁.append happ₂
  have hlength₂ : text₂.length = n + 1 := by
    have := happ₂.target_length
    rw [hC.target] at this
    omega
  obtain ⟨hub₂, hstep₂, h₂⟩ := h₁.op (by
    rw [hC.target, hC.base]
    show (text₁.length : Int) + _ ≤ _
    omega) hreceive₂
  have hbase : ((((CollabDocument.new content).append text₁ (deleteOne n)).append text₂
      (typeOne n)).historyBase : Int) = 0 := by
    simp [CollabDocument.append, CollabDocument.new, defaultHistoryLimit]
  have hwindow : windowSince (((CollabDocument.new content).append text₁ (deleteOne n)).append
      text₂ (typeOne n)) 0 = [deleteOne n, typeOne n] := by
    simp [windowSince, CollabDocument.append, CollabDocument.new, defaultHistoryLimit]
  have htakes : Takes (((CollabDocument.new content).append text₁ (deleteOne n)).append text₂
      (typeOne n)) 0 (replaceOne n) := by
    refine ⟨by decide, by rw [hbase], Int.natCast_nonneg _, ?_⟩
    rw [lengthAt, hwindow]
    exact hB.base.trans hA.base.symm
  obtain ⟨rebased, text₃, -, hlength₃, hreceive₃⟩ := htakes.receive hret₂ hB.wellFormed
  obtain ⟨hub₃, hstep₃, h₃⟩ := h₂.op (by
    rw [hB.target, hB.base]
    show (text₂.length : Int) + _ ≤ _
    omega) hreceive₃
  refine ⟨hub₃, _, ?_, h₃, ?_⟩
  · rw [run_append_eq _ hrun₀]
    simp only [replacing, run, hstep₁, hstep₂, hstep₃, Option.bind_some]
  · obtain ⟨hleft, hinserted⟩ := replacing_leaves hn
    rw [lengthAfter, hwindow, hleft, hinserted, CollabDocument.append_text] at hlength₃
    show text₃.length = n + 2
    omega

def fullText : Text := List.replicate 524288 120

theorem document_limit_iff_opened :
    ∃ start hub, run step (.new 300000 (by decide) 0 .empty) (opening fullText) = some start ∧
      run step start [.op 0 0 (deleteOne 524287) none] = some hub ∧
      ((∀ past reached, past <+: [HubEvent.op 0 0 (deleteOne 524287) none] →
          run step start past = some reached → WithinLimit reached 0) ↔
        Throughout step (fun hub => FitsLimit hub 0) start
          [.op 0 0 (deleteOne 524287) none]) := by
  obtain ⟨start, hrun, hopened⟩ := opening_opens fullText
  obtain ⟨room, hroom, -, hdocument⟩ := hopened.room
  have hlength : fullText.length = 524288 := List.length_replicate
  have hA := @deleteOne_amounts 524287 (by decide)
  obtain ⟨_, text₁, hreceive, -⟩ := @receive_current _ (retains_new fullText)
    (deleteOne 524287) hA.wellFormed 0 rfl (by decide)
    (by rw [hA.base]; exact congrArg Nat.cast hlength.symm)
  obtain ⟨hub, hstep, -⟩ := hopened.op (by
    rw [hA.target, hA.base]
    show (fullText.length : Int) + _ ≤ _
    rw [hlength]
    decide) hreceive
  have hrun' : run step start [.op 0 0 (deleteOne 524287) none] = some hub := by
    rw [run, hstep]
    rfl
  refine ⟨start, hub, hrun, hrun', document_limit_iff hroom hdocument ?_ ?_ hrun'⟩
  · rw [hlength]
    decide
  · exact List.forall_mem_singleton.mpr hA.wellFormed

/-- **The limit is passed**: every operation was let through, and the text is one unit
longer than may be. -/
theorem limit_passed :
    (fullText.length : Int) ≤ maxDocumentUnits ∧ (∀ e ∈ replacing 524287, BuiltEvent e) ∧
      ∃ hub, run step (.new 300000 (by decide) 0 .empty)
          (opening fullText ++ replacing 524287) = some hub ∧ ¬WithinLimit hub 0 := by
  have hlength : fullText.length = 524288 := List.length_replicate
  obtain ⟨hub, document, hrun, hopened, hgrown⟩ :=
    @replacing_grows 524287 (by decide) fullText hlength (by decide)
  refine ⟨by rw [hlength]; decide, ?_, hub, hrun, fun hwithin => ?_⟩
  · simp only [replacing, List.forall_mem_cons]
    exact ⟨(createOperation_built _).wellFormed, (createOperation_built _).wellFormed,
      (createOperation_built _).wellFormed, by simp⟩
  · obtain ⟨room, hroom, -, rfl⟩ := hopened.room
    have hle := hwithin room hroom
    rw [hgrown] at hle
    exact absurd hle (by decide)

end AgenticGit.Gateway
