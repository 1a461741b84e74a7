import AgenticGit.Lib.OrderedMap
import AgenticGit.Collab.Document

/- One shared file: its authoritative text, and who is looking at it
   (`room.ts`), with the carets of `text-operation.ts`.

   Correspondence (TypeScript ↔ Lean):
     `RoomScope`, `roomKey`         ↔ `RoomScope`, `roomKey`
     a `randomUUID()` participant id ↔ `ParticipantId`, the number of the draw
     `members: Map<..>`             ↔ `CollabRoom.members`
     `transformPosition`'s loop     ↔ `transformPositionLoop`

   A method that changes the room returns the room afterwards. The agents'
   activity in a room touches nothing else and is left out. -/
namespace AgenticGit.Collab
open AgenticGit.Runtime

/-! ## Carets -/

structure SelectionRange where
  anchor : Int
  head : Int
  deriving DecidableEq, Repr

/-- The loop of `transformPosition`: what is left of the position, and where it
ends up. -/
def transformPositionLoop : List OperationComponent → Int → Int → Int
  | [], _, result => result
  | component :: components, remaining, result =>
    if remaining < 0 then result
    else
      match component with
      | .string text => transformPositionLoop components remaining (result + text.length)
      | .number n =>
        if n > 0 then transformPositionLoop components (remaining - n) result
        -- A delete that straddles the caret drags it back to the cut point.
        else transformPositionLoop components (remaining + n) (result - min remaining (-n))

def transformPosition (position : Int) (operation : TextOperation) : Int :=
  transformPositionLoop operation.components position position

def transformSelection (selection : SelectionRange) (operation : TextOperation) :
    SelectionRange :=
  ⟨transformPosition selection.anchor operation, transformPosition selection.head operation⟩

def clampSelection (selection : SelectionRange) (length : Nat) : SelectionRange :=
  let clamp (value : Int) : Int :=
    if IsSafeInteger value then min (max value 0) length else 0
  ⟨clamp selection.anchor, clamp selection.head⟩

/-! ## Rooms -/

structure RoomScope where
  projectId : String
  repositoryId : String
  /-- The user whose overlay worktree backs this document. -/
  ownerUserId : String
  path : String
  deriving DecidableEq, Repr

def roomKey (scope : RoomScope) : String :=
  "\x00".intercalate [scope.projectId, scope.repositoryId, scope.ownerUserId, scope.path]

/-- What `randomUUID` gives: no draw repeats an earlier one. -/
abbrev ParticipantId := Nat

structure Participant where
  id : ParticipantId
  userId : String
  displayName : String
  color : String
  owner : Bool
  selection : Option SelectionRange
  deriving DecidableEq, Repr

def participantColors : List String :=
  ["#4cc2ff", "#ffb454", "#7ee787", "#ff7b9c", "#c792ea", "#ffd866", "#5eead4", "#f78166"]

def colorForUser (userId : String) : String :=
  let hash := (codeUnits userId).foldl (fun hash unit => (hash * 31 + unit) % 4294967296) 0
  participantColors.getD (hash % participantColors.length) "#4cc2ff"

structure JoinInput where
  participantId : ParticipantId
  userId : String
  displayName : String
  deriving DecidableEq, Repr

structure CollabRoom where
  scope : RoomScope
  document : CollabDocument
  members : OrderedMap ParticipantId Participant
  /-- Revision whose text is known to match the file on disk. -/
  savedRevision : Nat
  lastActivityAt : Int
  deriving DecidableEq

namespace CollabRoom

/-- `new CollabRoom(scope, content, now)`. -/
def new (scope : RoomScope) (content : Text) (now : Int) : CollabRoom where
  scope := scope
  document := CollabDocument.new content
  members := OrderedMap.empty
  savedRevision := (CollabDocument.new content).revision
  lastActivityAt := now

def touch (room : CollabRoom) (now : Int) : CollabRoom := { room with lastActivityAt := now }

def participants (room : CollabRoom) : List Participant := room.members.values

def size (room : CollabRoom) : Nat := room.members.entries.length

def dirty (room : CollabRoom) : Bool := room.document.revision ≠ room.savedRevision

def participant (room : CollabRoom) (participantId : ParticipantId) : Option Participant :=
  room.members.get? participantId

def join (room : CollabRoom) (input : JoinInput) : CollabRoom :=
  let participant : Participant :=
    { id := input.participantId
      userId := input.userId
      displayName := input.displayName
      color := colorForUser input.userId
      owner := input.userId = room.scope.ownerUserId
      selection := none }
  { room with members := room.members.set participant.id participant }

def leave (room : CollabRoom) (participantId : ParticipantId) : CollabRoom :=
  { room with members := room.members.delete participantId }

def place (members : OrderedMap ParticipantId Participant) (participantId : ParticipantId)
    (selection : SelectionRange) : OrderedMap ParticipantId Participant :=
  members.filterMapValues fun id member =>
    some (if id = participantId then { member with selection := some selection } else member)

/-- Applies one participant's operation and carries every other caret across
it. -/
def receive (room : CollabRoom) (participantId : ParticipantId) (clientRevision : Int)
    (operation : TextOperation) (selection : Option SelectionRange) :
    Except CollabError (AppliedOperation × CollabRoom) :=
  if ¬room.members.has participantId then
    .error ⟨"unknown_participant", "The sender is not in the room"⟩
  else do
    let (applied, document) ← room.document.receive clientRevision operation
    let members := room.members.filterMapValues fun id member =>
      some (if id = participantId then member
        else { member with
          selection := member.selection.map (transformSelection · applied.operation) })
    let members :=
      match selection with
      | none => members
      | some selection =>
        place members participantId (clampSelection selection document.content.length)
    return (applied, { room with document, members })

/-- Records a caret reported against `clientRevision`, carried forward through
anything that landed since. -/
def setSelection (room : CollabRoom) (participantId : ParticipantId) (clientRevision : Int)
    (selection : SelectionRange) : Except CollabError (Option SelectionRange × CollabRoom) :=
  if ¬room.members.has participantId then .ok (none, room)
  else do
    match ← room.document.since clientRevision with
    | none => return (none, room)
    | some catchUp =>
      let current := clampSelection (transformSelection selection catchUp)
        room.document.content.length
      return (some current,
        { room with members := place room.members participantId current })

def markSaved (room : CollabRoom) (revision : Nat) : CollabRoom :=
  { room with savedRevision := revision }

/-! ## What each method leaves alone -/

/-- The two rooms are of one file and seat the same participants. -/
structure SameSeats (room room' : CollabRoom) : Prop where
  scope : room'.scope = room.scope
  has : ∀ p, room'.members.has p = room.members.has p

theorem SameSeats.rfl {room : CollabRoom} : SameSeats room room :=
  ⟨Eq.refl _, fun _ => Eq.refl _⟩

theorem has_filterMapValues_some {α : Type} (members : OrderedMap ParticipantId α)
    (f : ParticipantId → α → α) (p : ParticipantId) :
    (members.filterMapValues fun id member => some (f id member)).has p = members.has p := by
  rw [OrderedMap.has, OrderedMap.has, OrderedMap.get?_filterMapValues]
  cases members.get? p <;> simp

theorem has_place (members : OrderedMap ParticipantId Participant) (participantId : ParticipantId)
    (selection : SelectionRange) (p : ParticipantId) :
    (place members participantId selection).has p = members.has p :=
  has_filterMapValues_some members _ p

theorem sameSeats_touch (room : CollabRoom) (now : Int) : SameSeats room (room.touch now) :=
  ⟨rfl, fun _ => rfl⟩

theorem sameSeats_markSaved (room : CollabRoom) (revision : Nat) :
    SameSeats room (room.markSaved revision) :=
  ⟨rfl, fun _ => rfl⟩

variable {participantId : ParticipantId} {clientRevision : Int}

/-- **What an accepted operation does to a room**: the document receives it, and
nothing else changes but carets. -/
theorem receive_ok {room room' : CollabRoom} {operation : TextOperation}
    {selection : Option SelectionRange} {applied : AppliedOperation}
    (h : room.receive participantId clientRevision operation selection = .ok (applied, room')) :
    room.document.receive clientRevision operation = .ok (applied, room'.document) ∧
      SameSeats room room' ∧ room'.savedRevision = room.savedRevision ∧
      room'.lastActivityAt = room.lastActivityAt := by
  unfold receive at h
  split at h
  · cases h
  · cases hr : room.document.receive clientRevision operation with
    | error e =>
      rw [hr] at h
      cases h
    | ok r =>
      rw [hr] at h
      cases h
      refine ⟨rfl, ⟨rfl, fun p => ?_⟩, rfl, rfl⟩
      cases selection with
      | none => exact has_filterMapValues_some room.members _ p
      | some selection =>
        exact (has_place _ _ _ p).trans (has_filterMapValues_some room.members _ p)

theorem setSelection_ok {room room' : CollabRoom} {selection : SelectionRange}
    {placed : Option SelectionRange}
    (h : room.setSelection participantId clientRevision selection = .ok (placed, room')) :
    SameSeats room room' ∧ room'.document = room.document ∧
      room'.savedRevision = room.savedRevision ∧ room'.lastActivityAt = room.lastActivityAt := by
  unfold setSelection at h
  split at h
  · cases h
    exact ⟨.rfl, rfl, rfl, rfl⟩
  · cases hs : room.document.since clientRevision with
    | error e =>
      rw [hs] at h
      cases h
    | ok catchUp =>
      rw [hs] at h
      cases catchUp with
      | none =>
        cases h
        exact ⟨.rfl, rfl, rfl, rfl⟩
      | some catchUp =>
        cases h
        exact ⟨⟨rfl, has_place _ _ _⟩, rfl, rfl, rfl⟩

theorem has_join (room : CollabRoom) (input : JoinInput) (p : ParticipantId) :
    (room.join input).members.has p = true ↔
      p = input.participantId ∨ room.members.has p = true := by
  rw [join, OrderedMap.has, OrderedMap.has, OrderedMap.get?_set]
  split <;> simp_all

theorem has_leave (room : CollabRoom) (participantId p : ParticipantId) :
    (room.leave participantId).members.has p = true ↔
      p ≠ participantId ∧ room.members.has p = true := by
  rw [leave, OrderedMap.has, OrderedMap.has, OrderedMap.get?_delete]
  split <;> simp_all

theorem size_eq_zero_iff {room : CollabRoom} :
    room.size = 0 ↔ ∀ p, room.members.has p = false := by
  rw [size, List.length_eq_zero_iff]
  constructor
  · intro h p
    rw [OrderedMap.has, OrderedMap.get?, h]
    rfl
  · intro h
    rw [List.eq_nil_iff_forall_not_mem]
    rintro ⟨p, member⟩ hm
    have hp : room.members.has p = true :=
      OrderedMap.has_iff.mpr ⟨member, OrderedMap.get?_eq_some_iff.mpr hm⟩
    rw [h p] at hp
    cases hp

end CollabRoom

end AgenticGit.Collab
