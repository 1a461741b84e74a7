import AgenticGit.Collab.Carets

/- Where the carets of a room's participants are, over every run of the room.

   Correspondence (TypeScript ↔ Lean):
     a `number` a caret may be sent as       ↔ `ν`, with the arithmetic `CaretNumbers`
       the caret code does on it; nothing is asked of that arithmetic
     `receive`, `setSelection`, their selections as they were sent
                                             ↔ `receiveAs`, `setSelectionAs`
     `replaceContent`                        ↔ `CollabRoom.replaceContent`
     one call on the room, and a run of them ↔ `RoomCall`, `CollabRoom.run`

   What is proved:
     1. `receive_length` — how long the document is after an operation, from the operation
        as it was sent: an operation that deletes what is gone already deletes less.
     2. `step_inside_iff` — one call keeps every caret inside the document unless it is an
        operation without a selection: the sender's own caret stays where it was.
     3. `selections_inside_iff` — the same of every run, and positions stay in order. -/
namespace AgenticGit.Collab
open AgenticGit.EditScript AgenticGit.InFlight AgenticGit.Runtime

/-! ## What an operation leaves of the document -/

/-- The retained entries lead from the text of each retained revision to the current one. -/
def Retains (document : CollabDocument) : Prop :=
  ∀ revision, document.historyBase ≤ revision → revision ≤ document.revision →
    ∃ before, Leads before (document.history.drop (revision - document.historyBase)) document.text

theorem retains_new (content : Text) : Retains (CollabDocument.new content) := by
  intro revision _ hhi
  exact ⟨content, by simpa [CollabDocument.new] using Leads.refl content⟩

theorem Retains.append {document : CollabDocument} (h : Retains document) {text : Text}
    {operation : TextOperation} (happ : Applies operation document.text text) :
    Retains (document.append text operation) := by
  intro revision hlo hhi
  rw [CollabDocument.append_revision] at hhi
  obtain rfl | hlt := Nat.eq_or_lt_of_le hhi
  · refine ⟨text, ?_⟩
    rw [List.drop_eq_nil_of_le]
    · exact Leads.refl _
    · have hrev := CollabDocument.append_revision document text operation
      unfold CollabDocument.revision at hrev hlo ⊢
      omega
  · have hle : revision ≤ document.revision := by omega
    obtain ⟨before, hl⟩ :=
      h revision ((CollabDocument.append_base_le _ text operation).trans hlo) hle
    rw [CollabDocument.append_window text operation hlo hle]
    exact ⟨before, hl.snoc happ⟩

/-- The entries an operation based on a revision is carried over. -/
def windowSince (document : CollabDocument) (clientRevision : Int) : List TextOperation :=
  document.history.drop (clientRevision - document.historyBase).toNat

/-- How many of the units the operation deletes are still there after the entries. -/
def leftToDelete (entries : List TextOperation) (operation : TextOperation) : Nat :=
  ((flagsAfter entries (dropped operation.script)).getD []).count true

/-- How long the document is once the operation has been applied: what it inserts is
added, and what is left of what it deletes is taken away. -/
def lengthAfter (document : CollabDocument) (clientRevision : Int) (operation : TextOperation) :
    Int :=
  document.text.length + inserted operation.script -
    leftToDelete (windowSince document clientRevision) operation

/-- How many of the units the operation deletes have been deleted since the revision it
was based on. -/
def alreadyDeleted (document : CollabDocument) (clientRevision : Int) (operation : TextOperation) :
    Int :=
  (dropped operation.script).count true -
    leftToDelete (windowSince document clientRevision) operation

theorem lengthAfter_eq {operation : TextOperation} (hw : operation.WellFormed)
    (document : CollabDocument) (clientRevision : Int) :
    lengthAfter document clientRevision operation =
      document.text.length + (operation.targetLength - operation.baseLength) +
        alreadyDeleted document clientRevision operation := by
  have hcount := targetLen_add_dropped operation.script
  rw [lengthAfter, alreadyDeleted, hw.target, hw.base]
  omega

/-- The length of the text the operation has to be based on. -/
def lengthAt (document : CollabDocument) (clientRevision : Int) : Int :=
  match windowSince document clientRevision with
  | [] => document.text.length
  | entry :: _ => entry.baseLength

/-- The document takes the operation: the revision is one it can rebase from, and the
operation is as long as the text then was. -/
structure Takes (document : CollabDocument) (clientRevision : Int) (operation : TextOperation) :
    Prop where
  safe : IsSafeInteger clientRevision
  retained : (document.historyBase : Int) ≤ clientRevision
  reached : clientRevision ≤ document.revision
  length : operation.baseLength = lengthAt document clientRevision

instance (document : CollabDocument) (clientRevision : Int) (operation : TextOperation) :
    Decidable (Takes document clientRevision operation) :=
  decidable_of_iff (IsSafeInteger clientRevision ∧ (document.historyBase : Int) ≤ clientRevision ∧
      clientRevision ≤ document.revision ∧ operation.baseLength = lengthAt document clientRevision)
    ⟨fun h => ⟨h.1, h.2.1, h.2.2.1, h.2.2.2⟩, fun h => ⟨h.safe, h.retained, h.reached, h.length⟩⟩

theorem rebase_dropped {before after text : Text} {entries : List TextOperation}
    {operation rebased : TextOperation} (h : Leads before entries after)
    (ho : Applies operation before text)
    (hr : CollabDocument.rebase operation entries = .ok rebased) :
    flagsAfter entries (dropped operation.script) = some (dropped rebased.script) ∧
      inserted rebased.script = inserted operation.script := by
  induction entries generalizing before operation text with
  | nil =>
    obtain rfl := Except.ok.inj hr
    exact ⟨rfl, rfl⟩
  | cons entry entries ih =>
    obtain ⟨middle, he, h⟩ := h.head
    have hbase : operation.baseLength = entry.baseLength := by rw [ho.base_length, he.base_length]
    obtain ⟨first, second, p, htransform, hbuilt, -, hp, heffect, -⟩ :=
      transform_built ho.wellFormed he.wellFormed hbase
    obtain ⟨first', second', merged, hcarry, happ, -⟩ := transformOperations_spec ho he
    obtain ⟨rfl, rfl⟩ := Prod.mk.inj (Except.ok.inj (htransform.symm.trans hcarry))
    have hr' : CollabDocument.rebase first entries = .ok rebased :=
      (OpSystem.rebase_cons (O := textSystem) htransform entries).symm.trans hr
    obtain ⟨hflags, hinserted⟩ := ih h happ hr'
    obtain ⟨hdropped, hputs⟩ := transform_dropped hp
    obtain ⟨htidy, htidy'⟩ := tidy_counts p.1
    have hscript : first.script = tidy p.1 := eq_tidy hbuilt.normal heffect
    refine ⟨?_, ?_⟩
    · rw [flagsAfter, List.foldlM_cons, hdropped, ← hflags, hscript, htidy]
      rfl
    · rw [hinserted, hscript, htidy', hputs]

/-- **What a document takes**: the operation applies to it once it is rebased, and the
length it leaves is `lengthAfter`. -/
theorem Takes.receive {document : CollabDocument} (hretains : Retains document)
    {clientRevision : Int} {operation : TextOperation} (hw : operation.WellFormed)
    (h : Takes document clientRevision operation) :
    ∃ rebased text, Applies rebased document.text text ∧
      (text.length : Int) = lengthAfter document clientRevision operation ∧
      document.receive clientRevision operation =
        .ok (⟨(document.append text rebased).revision, rebased⟩, document.append text rebased) := by
  obtain ⟨before, hl⟩ := hretains clientRevision.toNat (by have := h.retained; omega)
    (by have := h.reached; omega)
  have hk : clientRevision.toNat - document.historyBase =
      (clientRevision - document.historyBase).toNat := by
    have := h.retained
    omega
  rw [hk] at hl
  have hbase : operation.baseLength = before.length := by
    rw [h.length, lengthAt, windowSince]
    cases hwindow : document.history.drop (clientRevision - document.historyBase).toNat with
    | nil =>
      rw [hwindow] at hl
      rw [hl.nil_eq]
    | cons entry entries =>
      rw [hwindow] at hl
      obtain ⟨middle, he, -⟩ := hl.head
      exact he.base_length
  obtain ⟨text₀, ho⟩ := Applies.of_base_length hw hbase
  obtain ⟨rebased, text, hrebase, happ⟩ := hl.rebase ho
  obtain ⟨hflags, hinserted⟩ := rebase_dropped hl ho hrebase
  refine ⟨rebased, text, happ, ?_, ?_⟩
  · have hcount := targetLen_add_dropped rebased.script
    rw [← act_length happ.act, act_base happ.act] at hcount
    have hleft : leftToDelete (windowSince document clientRevision) operation =
        (dropped rebased.script).count true := by
      rw [leftToDelete, windowSince, hflags]
      rfl
    rw [lengthAfter, hleft, ← hinserted]
    omega
  · have h₁ : ¬(¬IsSafeInteger clientRevision ∨ clientRevision < 0) := by
      have := h.retained
      rintro (hs | hs)
      · exact hs h.safe
      · omega
    rw [CollabDocument.receive, if_neg h₁, if_neg (not_lt.mpr h.reached),
      if_neg (not_lt.mpr h.retained), hrebase]
    simp only [bind, Except.bind, happ.apply]
    rfl

theorem receive_takes {document document' : CollabDocument} (hretains : Retains document)
    {clientRevision : Int} {operation : TextOperation} {applied : AppliedOperation}
    (h : document.receive clientRevision operation = .ok (applied, document')) :
    Takes document clientRevision operation := by
  have hsafe : IsSafeInteger clientRevision := by
    by_contra hs
    rw [CollabDocument.receive, if_pos (.inl hs)] at h
    cases h
  obtain ⟨hlo, hhi, rebased, text, hrebase, happ, -, -⟩ := CollabDocument.receive_ok h
  obtain ⟨before, hl⟩ := hretains clientRevision.toNat (by omega) (by omega)
  rw [show clientRevision.toNat - document.historyBase =
    (clientRevision - document.historyBase).toNat by omega] at hl
  refine ⟨hsafe, hlo, hhi, ?_⟩
  rw [lengthAt, windowSince]
  cases hwindow : document.history.drop (clientRevision - document.historyBase).toNat with
  | nil =>
    rw [hwindow] at hrebase
    obtain rfl := Except.ok.inj hrebase
    unfold applyOperation at happ
    split at happ
    · cases happ
    · dsimp only
      omega
  | cons entry entries =>
    rw [hwindow] at hrebase
    by_contra hne
    have hm : textSystem.carry operation entry = .error _ := if_pos hne
    simp only [CollabDocument.rebase, OpSystem.rebase, hm] at hrebase
    cases hrebase

theorem receive_length {document : CollabDocument} (hretains : Retains document)
    {clientRevision : Int} {operation : TextOperation} (hw : operation.WellFormed) :
    (¬Takes document clientRevision operation ∧
        ∃ e, document.receive clientRevision operation = .error e) ∨
      (Takes document clientRevision operation ∧
        ∃ applied document', document.receive clientRevision operation = .ok (applied, document') ∧
          Applies applied.operation document.text document'.text ∧ Retains document' ∧
          (document'.text.length : Int) = lengthAfter document clientRevision operation) := by
  cases hr : document.receive clientRevision operation with
  | error e =>
    refine .inl ⟨fun htakes => ?_, e, rfl⟩
    obtain ⟨rebased, text, -, -, he⟩ := htakes.receive hretains hw
    rw [hr] at he
    cases he
  | ok result =>
    obtain ⟨applied, document'⟩ := result
    have htakes := receive_takes hretains hr
    obtain ⟨rebased, text, happ, hlength, he⟩ := htakes.receive hretains hw
    rw [hr] at he
    obtain ⟨rfl, rfl⟩ := Prod.mk.inj (Except.ok.inj he)
    exact .inr ⟨htakes, _, _, rfl, happ, hretains.append happ, hlength⟩

/-! ## Carets as they are sent -/

/-- The arithmetic the code does on a caret it was sent, whatever number that is. -/
structure CaretNumbers (ν : Type) where
  /-- `value < 0`. -/
  negative : ν → Bool
  /-- `value + n`, for a length `n` or its opposite. -/
  add : ν → Int → ν
  sub : ν → ν → ν
  /-- `Math.min(value, n)`. -/
  min : ν → Int → ν
  /-- The integer it is, when `Number.isSafeInteger(value)`. -/
  safeInteger : ν → Option Int

def integers : CaretNumbers Int where
  negative value := decide (value < 0)
  add := (· + ·)
  sub := (· - ·)
  min := Min.min
  safeInteger value := if IsSafeInteger value then some value else none

section Sent
variable {ν : Type} (N : CaretNumbers ν)

/-- The loop of `transformPosition`. -/
def transformPositionLoopAs : List OperationComponent → ν → ν → ν
  | [], _, result => result
  | component :: components, remaining, result =>
    if N.negative remaining then result
    else
      match component with
      | .string text => transformPositionLoopAs components remaining (N.add result text.length)
      | .number n =>
        if n > 0 then transformPositionLoopAs components (N.add remaining (-n)) result
        else transformPositionLoopAs components (N.add remaining n)
          (N.sub result (N.min remaining (-n)))

structure SentSelection (ν : Type) where
  anchor : ν
  head : ν

def transformSelectionAs (selection : SentSelection ν) (operation : TextOperation) :
    SentSelection ν :=
  ⟨transformPositionLoopAs N operation.components selection.anchor selection.anchor,
    transformPositionLoopAs N operation.components selection.head selection.head⟩

def clampSelectionAs (selection : SentSelection ν) (length : Nat) : SelectionRange :=
  let clamp (value : ν) : Int :=
    match N.safeInteger value with
    | some n => Min.min (max n 0) length
    | none => 0
  ⟨clamp selection.anchor, clamp selection.head⟩

namespace CollabRoom

/-- `receive`. -/
def receiveAs (room : CollabRoom) (participantId : ParticipantId) (clientRevision : Int)
    (operation : TextOperation) (selection : Option (SentSelection ν)) :
    Except CollabError (AppliedOperation × CollabRoom) :=
  if ¬room.members.has participantId then
    .error ⟨"unknown_participant", "The sender is not in the room"⟩
  else do
    let (applied, document) ← room.document.receive clientRevision operation
    let members := room.members.filterMapValues fun id member =>
      some (if id = participantId then member
        else { member with
          selection := member.selection.map (transformSelection · applied.operation) })
    let members :=
      match selection with
      | none => members
      | some selection =>
        place members participantId (clampSelectionAs N selection document.content.length)
    return (applied, { room with document, members })

/-- `setSelection`. -/
def setSelectionAs (room : CollabRoom) (participantId : ParticipantId) (clientRevision : Int)
    (selection : SentSelection ν) : Except CollabError (Option SelectionRange × CollabRoom) :=
  if ¬room.members.has participantId then .ok (none, room)
  else do
    match ← room.document.since clientRevision with
    | none => return (none, room)
    | some catchUp =>
      let current := clampSelectionAs N (transformSelectionAs N selection catchUp)
        room.document.content.length
      return (some current,
        { room with members := place room.members participantId current })

/-- Applies a change that came from outside the session. -/
def replaceContent (room : CollabRoom) (content : Text) : Option AppliedOperation × CollabRoom :=
  match room.document.replace content with
  | (none, document) => (none, { room with document })
  | (some applied, document) =>
    (some applied, { room with
      document
      members := room.members.filterMapValues fun _ member =>
        some { member with
          selection := member.selection.map (transformSelection · applied.operation) }
      savedRevision := document.revision })

end CollabRoom

end Sent

/-! Of integers these are the functions of the room. -/

theorem transformPositionLoopAs_integers (cs : List OperationComponent) (remaining result : Int) :
    transformPositionLoopAs integers cs remaining result =
      transformPositionLoop cs remaining result := by
  induction cs generalizing remaining result with
  | nil => rfl
  | cons c cs ih =>
    cases c with
    | string text =>
      simp only [transformPositionLoopAs, transformPositionLoop, integers, decide_eq_true_eq]
      split
      · rfl
      · exact ih _ _
    | number n =>
      simp only [transformPositionLoopAs, transformPositionLoop, integers, decide_eq_true_eq]
      split
      · rfl
      · split
        · exact ih _ _
        · exact ih _ _

theorem transformSelectionAs_integers (selection : SelectionRange) (operation : TextOperation) :
    transformSelectionAs integers ⟨selection.anchor, selection.head⟩ operation =
      ⟨(transformSelection selection operation).anchor,
        (transformSelection selection operation).head⟩ := by
  simp only [transformSelectionAs, transformSelection, transformPosition,
    transformPositionLoopAs_integers]

theorem clampSelectionAs_integers (selection : SelectionRange) (length : Nat) :
    clampSelectionAs integers ⟨selection.anchor, selection.head⟩ length =
      clampSelection selection length := by
  simp only [clampSelectionAs, clampSelection, integers]
  congr 1
  · split <;> rename_i h <;> split at h <;> simp_all
  · split <;> rename_i h <;> split at h <;> simp_all

theorem receiveAs_integers (room : CollabRoom) (participantId : ParticipantId)
    (clientRevision : Int) (operation : TextOperation) (selection : Option SelectionRange) :
    room.receiveAs integers participantId clientRevision operation
        (selection.map fun s => ⟨s.anchor, s.head⟩) =
      room.receive participantId clientRevision operation selection := by
  cases selection with
  | none => rfl
  | some selection =>
    simp only [CollabRoom.receiveAs, CollabRoom.receive, Option.map_some,
      clampSelectionAs_integers]

theorem setSelectionAs_integers (room : CollabRoom) (participantId : ParticipantId)
    (clientRevision : Int) (selection : SelectionRange) :
    room.setSelectionAs integers participantId clientRevision ⟨selection.anchor, selection.head⟩ =
      room.setSelection participantId clientRevision selection := by
  simp only [CollabRoom.setSelectionAs, CollabRoom.setSelection, transformSelectionAs_integers,
    clampSelectionAs_integers] <;> rfl

/-! ## Runs of a room -/

inductive RoomCall (ν : Type) where
  | join (input : JoinInput)
  | leave (participantId : ParticipantId)
  | receive (participantId : ParticipantId) (clientRevision : Int) (operation : TextOperation)
      (selection : Option (SentSelection ν))
  | setSelection (participantId : ParticipantId) (clientRevision : Int)
      (selection : SentSelection ν)
  | replaceContent (content : Text)

/-- Between the start of the text and its end. -/
structure SelectionRange.Inside (selection : SelectionRange) (length : Int) : Prop where
  anchor_pos : 0 ≤ selection.anchor
  anchor_le : selection.anchor ≤ length
  head_pos : 0 ≤ selection.head
  head_le : selection.head ≤ length

namespace CollabRoom

/-- The participant's recorded selection, if it has one. -/
def selectionOf (room : CollabRoom) (participantId : ParticipantId) : Option SelectionRange :=
  (room.participant participantId).bind (·.selection)

/-- **Every recorded caret is inside the document.** -/
def SelectionsInside (room : CollabRoom) : Prop :=
  ∀ participantId, ∀ selection ∈ room.selectionOf participantId,
    selection.Inside room.document.content.length

end CollabRoom

section Runs
variable {ν : Type} (N : CaretNumbers ν)

namespace RoomCall

/-- The operation it carries, if any, is as an `OperationBuilder` builds it. -/
def Built : RoomCall ν → Prop
  | .receive _ _ operation _ => operation.WellFormed
  | _ => True

/-- The room after the call, whether the call returned or threw. -/
def after (room : CollabRoom) : RoomCall ν → CollabRoom
  | .join input => room.join input
  | .leave participantId => room.leave participantId
  | .receive participantId clientRevision operation selection =>
    match room.receiveAs N participantId clientRevision operation selection with
    | .ok (_, room) => room
    | .error _ => room
  | .setSelection participantId clientRevision selection =>
    match room.setSelectionAs N participantId clientRevision selection with
    | .ok (_, room) => room
    | .error _ => room
  | .replaceContent content => (room.replaceContent content).2

/-- An operation that comes without a selection leaves room for the caret its sender has:
both ends are at most as far as the document then reaches. -/
def LeavesRoom (room : CollabRoom) : RoomCall ν → Prop
  | .receive participantId clientRevision operation none =>
    Takes room.document clientRevision operation →
      ∀ selection ∈ room.selectionOf participantId,
        selection.anchor ≤ lengthAfter room.document clientRevision operation ∧
          selection.head ≤ lengthAfter room.document clientRevision operation
  | _ => True

end RoomCall

def CollabRoom.run (room : CollabRoom) (calls : List (RoomCall ν)) : CollabRoom :=
  calls.foldl (RoomCall.after N) room

@[simp] theorem run_snoc (room : CollabRoom) (calls : List (RoomCall ν)) (call : RoomCall ν) :
    room.run N (calls ++ [call]) = call.after N (room.run N calls) := by
  simp [CollabRoom.run]

/-! What a call does to the carets. -/

theorem clampSelectionAs_inside (selection : SentSelection ν) (length : Nat) :
    (clampSelectionAs N selection length).Inside length := by
  unfold clampSelectionAs
  constructor <;> dsimp only <;> split <;> omega

theorem transformSelection_inside {operation : TextOperation} {before after : Text}
    (h : Applies operation before after) {selection : SelectionRange}
    (hs : selection.Inside before.length) :
    (transformSelection selection operation).Inside after.length := by
  obtain ⟨ha, ha', hh, hh'⟩ := hs
  have hanchor := transformPosition_le h (p := selection.anchor.toNat) (by omega)
  have hhead := transformPosition_le h (p := selection.head.toNat) (by omega)
  rw [Int.toNat_of_nonneg ha] at hanchor
  rw [Int.toNat_of_nonneg hh] at hhead
  exact ⟨hanchor.1, hanchor.2, hhead.1, hhead.2⟩

theorem selectionOf_place (room : CollabRoom) (document : CollabDocument)
    (members : OrderedMap ParticipantId Participant) (participantId p : ParticipantId)
    (selection : SelectionRange) :
    { room with document, members := CollabRoom.place members participantId selection }.selectionOf
        p =
      if p = participantId then (members.get? p).map fun _ => selection
      else (members.get? p).bind (·.selection) := by
  rw [CollabRoom.selectionOf, CollabRoom.participant, CollabRoom.place,
    OrderedMap.get?_filterMapValues]
  cases members.get? p with
  | none => simp
  | some member =>
    by_cases hp : p = participantId
    · simp [hp]
    · simp [hp]

theorem selectionOf_join (room : CollabRoom) (input : JoinInput) (p : ParticipantId) :
    (room.join input).selectionOf p =
      if p = input.participantId then none else room.selectionOf p := by
  rw [CollabRoom.selectionOf, CollabRoom.participant, CollabRoom.join, OrderedMap.get?_set]
  split <;> rfl

theorem selectionOf_leave (room : CollabRoom) (participantId p : ParticipantId) :
    (room.leave participantId).selectionOf p =
      if p = participantId then none else room.selectionOf p := by
  rw [CollabRoom.selectionOf, CollabRoom.participant, CollabRoom.leave, OrderedMap.get?_delete]
  split <;> rfl

theorem selectionOf_carried (members : OrderedMap ParticipantId Participant)
    (participantId p : ParticipantId) (operation : TextOperation) :
    ((members.filterMapValues fun id member =>
        some (if id = participantId then member
          else { member with
            selection := member.selection.map (transformSelection · operation) })).get? p).bind
        (·.selection) =
      if p = participantId then (members.get? p).bind (·.selection)
      else ((members.get? p).bind (·.selection)).map (transformSelection · operation) := by
  rw [OrderedMap.get?_filterMapValues]
  cases members.get? p with
  | none => simp
  | some member =>
    by_cases hp : p = participantId
    · simp [hp]
    · simp [hp]

variable {room : CollabRoom} {participantId : ParticipantId} {clientRevision : Int}

/-- What a document makes of an operation the room makes of it too: the carets of the
others are carried, and the sender's is set when it came with one. -/
theorem receiveAs_ok {operation : TextOperation} {document : CollabDocument}
    {applied : AppliedOperation} (selection : Option (SentSelection ν))
    (hhas : room.members.has participantId = true)
    (h : room.document.receive clientRevision operation = .ok (applied, document)) :
    ∃ room', room.receiveAs N participantId clientRevision operation selection =
        .ok (applied, room') ∧ room'.document = document ∧
      (∀ p, p ≠ participantId → room'.selectionOf p =
        (room.selectionOf p).map (transformSelection · applied.operation)) ∧
      room'.selectionOf participantId =
        match selection with
        | none => room.selectionOf participantId
        | some sent => some (clampSelectionAs N sent document.content.length) := by
  rw [CollabRoom.receiveAs, if_neg (not_not.mpr hhas), h]
  refine ⟨_, rfl, rfl, ?_, ?_⟩
  · intro p hp
    cases selection with
    | none => exact (selectionOf_carried room.members participantId p _).trans (if_neg hp)
    | some sent =>
      refine (selectionOf_place room document _ participantId p _).trans ?_
      rw [if_neg hp, selectionOf_carried, if_neg hp]
      rfl
  · cases selection with
    | none =>
      exact (selectionOf_carried room.members participantId participantId _).trans (if_pos rfl)
    | some sent =>
      refine (selectionOf_place room document _ participantId participantId _).trans ?_
      obtain ⟨member, hmember⟩ := OrderedMap.has_iff.mp hhas
      rw [if_pos rfl, OrderedMap.get?_filterMapValues, hmember]
      rfl

theorem receive_inside (hretains : Retains room.document) (hinside : room.SelectionsInside)
    {operation : TextOperation} (hw : operation.WellFormed) (selection : Option (SentSelection ν)) :
    let call := RoomCall.receive participantId clientRevision operation selection
    Retains (call.after N room).document ∧
      ((call.after N room).SelectionsInside ↔ call.LeavesRoom room) := by
  intro call
  by_cases hhas : room.members.has participantId = true
  · obtain ⟨hnot, e, he⟩ | ⟨htakes, applied, document, hok, happ, hnext, hlength⟩ :=
      @receive_length _ hretains clientRevision _ hw
    · have hsame : call.after N room = room := by
        simp only [call, RoomCall.after, CollabRoom.receiveAs, hhas, not_true, if_false, he]
        rfl
      rw [hsame]
      refine ⟨hretains, iff_of_true hinside ?_⟩
      cases selection with
      | none => exact fun htakes => absurd htakes hnot
      | some sent => trivial
    · obtain ⟨room', hroom, rfl, hothers, hsender⟩ := receiveAs_ok N selection hhas hok
      have hafter : call.after N room = room' := by
        simp only [call, RoomCall.after, hroom]
      rw [hafter]
      refine ⟨hnext, ?_⟩
      have others (p : ParticipantId) (hp : p ≠ participantId) (s : SelectionRange)
          (hs : s ∈ room'.selectionOf p) : s.Inside room'.document.content.length := by
        rw [hothers p hp, Option.mem_map] at hs
        obtain ⟨s₀, hs₀, rfl⟩ := hs
        exact transformSelection_inside happ (hinside p s₀ hs₀)
      cases selection with
      | none =>
        have hkept : room'.selectionOf participantId = room.selectionOf participantId := hsender
        constructor
        · intro hall _ s hs
          rw [← hkept] at hs
          have hin := hall participantId s hs
          rw [← hlength]
          exact ⟨hin.anchor_le, hin.head_le⟩
        · intro hroom' p s hs
          by_cases hp : p = participantId
          · subst hp
            rw [hkept] at hs
            have hold := hinside p s hs
            obtain ⟨ha, hh⟩ := hroom' htakes s hs
            rw [← hlength] at ha hh
            exact ⟨hold.anchor_pos, ha, hold.head_pos, hh⟩
          · exact others p hp s hs
      | some sent =>
        refine iff_of_true (fun p s hs => ?_) trivial
        by_cases hp : p = participantId
        · subst hp
          rw [hsender] at hs
          obtain rfl := Option.some.inj hs
          exact clampSelectionAs_inside N sent _
        · exact others p hp s hs
  · have hsame : call.after N room = room := by
      simp only [call, RoomCall.after, CollabRoom.receiveAs, hhas]
      rfl
    rw [hsame]
    refine ⟨hretains, iff_of_true hinside ?_⟩
    cases selection with
    | none =>
      intro _ s hs
      have hnone : room.members.get? participantId = none := by
        rwa [OrderedMap.has, Bool.not_eq_true, Option.isSome_eq_false_iff,
          Option.isNone_iff_eq_none] at hhas
      rw [CollabRoom.selectionOf, CollabRoom.participant, hnone] at hs
      cases hs
    | some sent => trivial

theorem setSelection_inside (hinside : room.SelectionsInside) (participantId : ParticipantId)
    (clientRevision : Int) (selection : SentSelection ν) :
    let next := (RoomCall.setSelection participantId clientRevision selection).after N room
    next.document = room.document ∧ next.SelectionsInside := by
  dsimp only [RoomCall.after, CollabRoom.setSelectionAs]
  by_cases hhas : room.members.has participantId = true
  · simp only [hhas, not_true, if_false]
    cases hs : room.document.since clientRevision with
    | error e => exact ⟨rfl, hinside⟩
    | ok catchUp =>
      cases catchUp with
      | none => exact ⟨rfl, hinside⟩
      | some catchUp =>
        refine ⟨rfl, fun p s hp => ?_⟩
        have hp := (selectionOf_place room room.document room.members participantId p _) ▸ hp
        split at hp
        · obtain ⟨_, -, rfl⟩ := Option.mem_map.mp hp
          exact clampSelectionAs_inside N _ _
        · exact hinside p s hp
  · simp only [hhas]
    exact ⟨rfl, hinside⟩

theorem replaceContent_inside (hretains : Retains room.document) (hinside : room.SelectionsInside)
    (content : Text) : Retains (room.replaceContent content).2.document ∧
      (room.replaceContent content).2.SelectionsInside := by
  unfold CollabRoom.replaceContent CollabDocument.replace
  by_cases hsame : content = room.document.text
  · simp only [hsame, if_true]
    exact ⟨hretains, hinside⟩
  · simp only [hsame, if_false]
    have happ := diffOperation_applies room.document.text content
    refine ⟨hretains.append happ, fun p s hs => ?_⟩
    simp only [CollabRoom.selectionOf, CollabRoom.participant,
      OrderedMap.get?_filterMapValues] at hs
    cases hmember : room.members.get? p with
    | none =>
      rw [hmember] at hs
      cases hs
    | some member =>
      rw [hmember] at hs
      obtain ⟨s₀, hs₀, rfl⟩ := Option.mem_map.mp hs
      refine transformSelection_inside happ (hinside p s₀ ?_)
      rw [CollabRoom.selectionOf, CollabRoom.participant, hmember]
      exact hs₀

/-- **One call.** It keeps every caret inside the document exactly when an operation
without a selection leaves room for its sender's caret. -/
theorem step_inside_iff (hretains : Retains room.document) (hinside : room.SelectionsInside)
    {call : RoomCall ν} (hb : call.Built) : Retains (call.after N room).document ∧
      ((call.after N room).SelectionsInside ↔ call.LeavesRoom room) := by
  cases call with
  | join input =>
    refine ⟨hretains, iff_of_true (fun p s hs => ?_) trivial⟩
    have hs := selectionOf_join room input p ▸ hs
    split at hs
    · cases hs
    · exact hinside p s hs
  | leave participantId =>
    refine ⟨hretains, iff_of_true (fun p s hs => ?_) trivial⟩
    have hs := selectionOf_leave room participantId p ▸ hs
    split at hs
    · cases hs
    · exact hinside p s hs
  | receive participantId clientRevision operation selection =>
    exact receive_inside N hretains hinside hb selection
  | setSelection participantId clientRevision selection =>
    obtain ⟨hdocument, hnext⟩ :=
      setSelection_inside N hinside participantId clientRevision selection
    exact ⟨hdocument ▸ hretains, iff_of_true hnext trivial⟩
  | replaceContent content =>
    obtain ⟨hnext, hin⟩ := replaceContent_inside hretains hinside content
    exact ⟨hnext, iff_of_true hin trivial⟩

/-! ## Selections stay inside -/

theorem new_inside (scope : RoomScope) (content : Text) (now : Int) :
    (CollabRoom.new scope content now).SelectionsInside := by
  intro p s hs
  cases hs

theorem run_inside (hretains : Retains room.document) (hinside : room.SelectionsInside)
    (calls : List (RoomCall ν)) (hb : ∀ call ∈ calls, call.Built)
    (hroom : ∀ past call, past ++ [call] <+: calls → call.LeavesRoom (room.run N past)) :
    Retains (room.run N calls).document ∧ (room.run N calls).SelectionsInside := by
  induction calls using List.reverseRecOn with
  | nil => exact ⟨hretains, hinside⟩
  | append_singleton calls call ih =>
    obtain ⟨hbs, hbc⟩ := List.forall_mem_append.mp hb
    obtain ⟨hretains', hinside'⟩ :=
      ih hbs fun past call' hp => hroom past call' (hp.trans (List.prefix_append _ _))
    obtain ⟨hnext, hiff⟩ :=
      step_inside_iff N hretains' hinside' (hbc call (List.mem_singleton_self call))
    rw [run_snoc]
    exact ⟨hnext, hiff.mpr (hroom calls call (List.prefix_refl _))⟩

theorem run_retains (hretains : Retains room.document) (calls : List (RoomCall ν))
    (hb : ∀ call ∈ calls, call.Built)
    (hinside : ∀ past, past <+: calls → (room.run N past).SelectionsInside) :
    Retains (room.run N calls).document := by
  induction calls using List.reverseRecOn with
  | nil => exact hretains
  | append_singleton calls call ih =>
    obtain ⟨hbs, hbc⟩ := List.forall_mem_append.mp hb
    have hretains' := ih hbs fun past hp => hinside past (hp.trans (List.prefix_append _ _))
    rw [run_snoc]
    exact (step_inside_iff N hretains' (hinside calls (List.prefix_append _ _))
      (hbc call (List.mem_singleton_self call))).1

/-- **When selections stay inside the document.** For every arithmetic on the numbers
clients send and every run of a room, with operations as a builder builds them: every
recorded caret is an integer from 0 to the length of the document in every state reached,
if and only if each operation that came without a selection left room for the caret its
sender had. Positions of the old text are mapped to positions of the new one, in order. -/
theorem selections_inside_iff (scope : RoomScope) (content : Text) (now : Int)
    (calls : List (RoomCall ν)) (hb : ∀ call ∈ calls, call.Built) :
    ((∀ past, past <+: calls →
        ((CollabRoom.new scope content now).run N past).SelectionsInside) ↔
      ∀ past call, past ++ [call] <+: calls →
        call.LeavesRoom ((CollabRoom.new scope content now).run N past)) ∧
    (∀ operation before after, Applies operation before after → ∀ p q : Int,
      0 ≤ p → p ≤ q → q ≤ before.length →
        0 ≤ transformPosition p operation ∧
          transformPosition p operation ≤ transformPosition q operation ∧
          transformPosition q operation ≤ after.length) := by
  have hretains := retains_new content
  refine ⟨⟨fun hinside past call hp => ?_, fun hroom past hp => ?_⟩, ?_⟩
  · have hpast : past <+: calls := (List.prefix_append _ _).trans hp
    have hbuilt : ∀ c ∈ past, c.Built := fun c hc => hb c (hpast.subset hc)
    have hret := run_retains N hretains past hbuilt fun p hp' => hinside p (hp'.trans hpast)
    have hcall : call.Built := hb call (hp.subset (by simp))
    have hnext := hinside _ hp
    rw [run_snoc] at hnext
    exact (step_inside_iff N hret (hinside past hpast) hcall).2.mp hnext
  · exact (run_inside N hretains (new_inside scope content now) past
      (fun c hc => hb c (hp.subset hc)) fun p c hp' => hroom p c (hp'.trans hp)).2
  · intro operation before after happ p q hp hpq hq
    obtain ⟨p, rfl⟩ := Int.eq_ofNat_of_zero_le hp
    obtain ⟨q, rfl⟩ := Int.eq_ofNat_of_zero_le (hp.trans hpq)
    have hlow := transformPosition_le happ (p := p) (by omega)
    have hhigh := transformPosition_le happ (p := q) (by omega)
    exact ⟨hlow.1, transformPosition_mono happ.wellFormed (Int.ofNat_le.mp hpq), hhigh.2⟩

end Runs

/-! A participant at the end of two characters deletes both, and its message carries no
selection. -/

def sharedRoom : CollabRoom :=
  CollabRoom.new ⟨"project", "repository", "ada", "notes.md"⟩ [104, 105] 0

def deleteBoth : TextOperation := createOperation [.number (-2)]

def caretThenDelete (selection : Option (SentSelection Int)) : List (RoomCall Int) :=
  [.join ⟨0, "ada", "Ada"⟩, .setSelection 0 0 ⟨2, 2⟩, .receive 0 0 deleteBoth selection]

theorem caretThenDelete_built (selection : Option (SentSelection Int)) :
    ∀ call ∈ caretThenDelete selection, call.Built := by
  intro call hc
  simp only [caretThenDelete, List.mem_cons, List.not_mem_nil, or_false] at hc
  obtain rfl | rfl | rfl := hc
  · trivial
  · trivial
  · exact (createOperation_built _).wellFormed

theorem selections_inside_iff_sent :
    ((∀ past, past <+: caretThenDelete (some ⟨0, 0⟩) →
        (sharedRoom.run integers past).SelectionsInside) ↔
      ∀ past call, past ++ [call] <+: caretThenDelete (some ⟨0, 0⟩) →
        call.LeavesRoom (sharedRoom.run integers past)) ∧
    (∀ operation before after, Applies operation before after → ∀ p q : Int,
      0 ≤ p → p ≤ q → q ≤ before.length →
        0 ≤ transformPosition p operation ∧
          transformPosition p operation ≤ transformPosition q operation ∧
          transformPosition q operation ≤ after.length) :=
  selections_inside_iff integers _ _ _ _ (caretThenDelete_built _)

/-- **The caret is past the end**: the text is empty, and its owner's caret is at 2. -/
theorem caret_left_behind :
    (∀ call ∈ caretThenDelete none, call.Built) ∧
      (sharedRoom.run integers (caretThenDelete none)).document.content = [] ∧
      (sharedRoom.run integers (caretThenDelete none)).selectionOf 0 = some ⟨2, 2⟩ ∧
      ¬(sharedRoom.run integers (caretThenDelete none)).SelectionsInside := by
  have htext : (sharedRoom.run integers (caretThenDelete none)).document.content = [] := by
    decide
  have hselection : (sharedRoom.run integers (caretThenDelete none)).selectionOf 0 =
      some ⟨2, 2⟩ := by
    decide
  refine ⟨caretThenDelete_built none, htext, hselection, fun hinside => ?_⟩
  have hle := (hinside 0 ⟨2, 2⟩ hselection).anchor_le
  rw [htext] at hle
  exact absurd hle (by decide)

end AgenticGit.Collab
