import AgenticGit.Collab.Room

/- `CollabWebSocketHub` of `collab-websocket.ts`: the rooms, who is connected to
   them, and the awaited reads and writes of the files behind them.

   Everything between two awaits is one step. `step` says what each event does
   and which events can come; a run of the hub is any sequence of events that
   can come one after the other.

   Correspondence (TypeScript ↔ Lean):
     a `CollabRoom` object                   ↔ its `RoomId`, a place in `objects`
     `rooms: CollabRoomRegistry`             ↔ `rooms`, `create`, `OrderedMap.delete`
     `clients`, `byRoom`, `membersOf`        ↔ the same names; a client that is
       `closed` is one that is not in `clients`
     `tryUpgrade` up to `await readFile`     ↔ `tryUpgrade`
     `tryUpgrade` after it                   ↔ `finishUpgrade`
     `handle`, its cases                     ↔ `handleOp`, `handleSelection`, `touch`
     `save` up to `await writeFile`, after   ↔ `save`, `finishWrite`
     `forget`, `disconnect`                  ↔ `forget`
     `flushIdleRooms`, one turn of its loop  ↔ `startSweep`, `flushNext`, and
       `finishWrite` after its `await writeFile`
     `Date.now()`                            ↔ `now`, which never goes back
     the overlay worktrees behind `workspace` ↔ `disk`

   A client that is dropped in the middle of a broadcast (its socket is full) is
   a `forget` right after the step that broadcast. Upgrades refused before the
   room is looked up change nothing here. What is sent over the sockets, the
   agents' activity and the audit log are left out. -/
namespace AgenticGit.Gateway
open AgenticGit.Collab AgenticGit.Runtime

/-- A `CollabRoom` object, as its place among all that were ever built. -/
abbrev RoomId := Nat

/-- A call of `readFile` or `writeFile`, numbered in the order they were made. -/
abbrev CallId := Nat

/-- The longest document that may be edited together, in code units. -/
def maxDocumentUnits : Int := 512 * 1024

structure User where
  id : String
  displayName : String
  deriving DecidableEq, Repr

structure CollabClient where
  principal : User
  room : RoomId
  participantId : ParticipantId
  deriving DecidableEq, Repr

/-- An upgrade that waits for `readFile`. -/
structure PendingRead where
  scope : RoomScope
  principal : User
  deriving DecidableEq, Repr

/-- What `fileSnapshot` makes of the answer. -/
structure FileSnapshot where
  content : Text
  binary : Bool
  truncated : Bool
  deriving DecidableEq, Repr

inductive Writer where
  | save
  | flush
  deriving DecidableEq, Repr

/-- A call of `writeFile` that has not completed. -/
structure PendingWrite where
  writer : Writer
  room : RoomId
  scope : RoomScope
  content : Text
  /-- The document's revision when the call was made. `save` keeps it to mark it
  saved; `flushIdleRooms` does not look at it again. -/
  revision : Nat
  /-- Whether the write has taken effect on disk. -/
  landed : Bool
  deriving DecidableEq, Repr

/-- A sweep on its way over the rooms it found when it started. -/
structure Sweep where
  deadline : Int
  /-- The write it awaits. -/
  current : Option CallId
  remaining : List RoomId
  deriving DecidableEq, Repr

structure CollabWebSocketHub where
  idleFlushMs : Nat
  idle_pos : 1 ≤ idleFlushMs
  now : Int
  objects : List CollabRoom
  rooms : OrderedMap String RoomId
  clients : List CollabClient
  byRoom : OrderedMap String (List CollabClient)
  /-- How many participant ids were drawn. -/
  draws : Nat
  /-- How many reads and writes were called. -/
  calls : Nat
  reads : OrderedMap CallId PendingRead
  writes : OrderedMap CallId PendingWrite
  sweep : Option Sweep
  disk : OrderedMap RoomScope Text

namespace CollabWebSocketHub

def new (idleFlushMs : Nat) (idle_pos : 1 ≤ idleFlushMs) (now : Int)
    (disk : OrderedMap RoomScope Text) : CollabWebSocketHub where
  idleFlushMs := idleFlushMs
  idle_pos := idle_pos
  now := now
  objects := []
  rooms := OrderedMap.empty
  clients := []
  byRoom := OrderedMap.empty
  draws := 0
  calls := 0
  reads := OrderedMap.empty
  writes := OrderedMap.empty
  sweep := none
  disk := disk

def setObject (hub : CollabWebSocketHub) (r : RoomId) (room : CollabRoom) : CollabWebSocketHub :=
  { hub with objects := hub.objects.set r room }

/-- The key of a room, whether or not it is registered there. -/
def keyOf (hub : CollabWebSocketHub) (r : RoomId) : Option String :=
  hub.objects[r]?.map fun room => roomKey room.scope

def membersOf (hub : CollabWebSocketHub) (scope : RoomScope) : List CollabClient :=
  (hub.byRoom.get? (roomKey scope)).getD []

def client? (hub : CollabWebSocketHub) (participantId : ParticipantId) : Option CollabClient :=
  hub.clients.find? fun client => client.participantId = participantId

/-- `rooms.create(scope, content)`: whatever was registered is replaced. -/
def create (hub : CollabWebSocketHub) (scope : RoomScope) (content : Text) : CollabWebSocketHub :=
  { hub with
    objects := hub.objects ++ [CollabRoom.new scope content hub.now]
    rooms := hub.rooms.set (roomKey scope) hub.objects.length }

/-- `tryUpgrade` from `room.join` on. -/
def join (hub : CollabWebSocketHub) (r : RoomId) (principal : User) : CollabWebSocketHub :=
  match hub.objects[r]? with
  | none => hub
  | some room =>
    let input : JoinInput :=
      { participantId := hub.draws
        userId := principal.id
        displayName :=
          if 0 < (trim principal.displayName).length then principal.displayName
          else principal.id }
    let client : CollabClient := ⟨principal, r, hub.draws⟩
    { hub with
      draws := hub.draws + 1
      objects := hub.objects.set r ((room.join input).touch hub.now)
      clients := hub.clients ++ [client]
      byRoom := hub.byRoom.set (roomKey room.scope) (hub.membersOf room.scope ++ [client]) }

/-- Whether the owner of the overlay sits in the room. -/
def hosted (hub : CollabWebSocketHub) (scope : RoomScope) (r : RoomId) : Bool :=
  hub.objects[r]?.any fun room =>
    room.participants.any fun participant => participant.userId = scope.ownerUserId

/-- `tryUpgrade` from the lookup of the room to the socket's `welcome`, or to
the `await` of `readFile`. -/
def tryUpgrade (hub : CollabWebSocketHub) (scope : RoomScope) (principal : User) :
    CollabWebSocketHub :=
  let guest : Bool := scope.ownerUserId ≠ principal.id
  match hub.rooms.get? (roomKey scope) with
  | some r => if guest && !hub.hosted scope r then hub else hub.join r principal
  | none =>
    if guest then hub
    else { hub with
      calls := hub.calls + 1
      reads := hub.reads.set hub.calls ⟨scope, principal⟩ }

/-- `tryUpgrade` after its `await`: the room is created, whoever has created it
in the meantime, and joined. A read that failed gives no snapshot. -/
def finishUpgrade (hub : CollabWebSocketHub) (call : CallId) (snapshot : Option FileSnapshot) :
    Option CollabWebSocketHub :=
  match hub.reads.get? call with
  | none => none
  | some read =>
    let hub := { hub with reads := hub.reads.delete call }
    match snapshot with
    | none => some hub
    | some snapshot =>
      if snapshot.binary || snapshot.truncated then some hub
      else some ((hub.create read.scope snapshot.content).join hub.objects.length read.principal)

/-- The `op` case of `handle`: the room after the message. One that is refused
leaves it as it was. -/
def handleOp (room : CollabRoom) (participantId : ParticipantId) (revision : Int)
    (operation : TextOperation) (selection : Option SelectionRange) : CollabRoom :=
  let growth := operation.targetLength - operation.baseLength
  if room.document.content.length + max growth 0 > maxDocumentUnits then room
  else
    match room.receive participantId revision operation selection with
    | .ok (_, room) => room
    | .error _ => room

/-- The `selection` case of `handle`. -/
def handleSelection (room : CollabRoom) (participantId : ParticipantId) (revision : Int)
    (selection : SelectionRange) : CollabRoom :=
  match room.setSelection participantId revision selection with
  | .ok (_, room) => room
  | .error _ => room

/-- `handle`, for the messages it answers without an `await`: the room is
touched, and `change` is what the message does to it. -/
def handle (hub : CollabWebSocketHub) (participantId : ParticipantId)
    (change : CollabRoom → CollabRoom) : Option CollabWebSocketHub :=
  match hub.client? participantId with
  | none => none
  | some client =>
    hub.objects[client.room]?.map fun room => hub.setObject client.room (change (room.touch hub.now))

/-- A call of `writeFile` for what the room holds now. -/
def callWrite (hub : CollabWebSocketHub) (writer : Writer) (r : RoomId) (room : CollabRoom) :
    CollabWebSocketHub :=
  { hub with
    calls := hub.calls + 1
    writes := hub.writes.set hub.calls
      ⟨writer, r, room.scope, room.document.content, room.document.revision, false⟩ }

/-- The `save` case of `handle`, up to the `await` of `save`. -/
def save (hub : CollabWebSocketHub) (participantId : ParticipantId) :
    Option CollabWebSocketHub :=
  match hub.client? participantId with
  | none => none
  | some client =>
    hub.objects[client.room]?.map fun room =>
      (hub.setObject client.room (room.touch hub.now)).callWrite .save client.room room

def land (hub : CollabWebSocketHub) (call : CallId) : Option CollabWebSocketHub :=
  match hub.writes.get? call with
  | none => none
  | some write =>
    if write.landed then none
    else some { hub with
      writes := hub.writes.set call { write with landed := true }
      disk := hub.disk.set write.scope write.content }

/-- `forget`, for a client that is not `closed`. -/
def forget (hub : CollabWebSocketHub) (participantId : ParticipantId) :
    Option CollabWebSocketHub :=
  match hub.client? participantId with
  | none => none
  | some client =>
    hub.objects[client.room]?.map fun room =>
      let key := roomKey room.scope
      let others := (hub.membersOf room.scope).filter fun member => member ≠ client
      let room := (room.leave participantId).touch hub.now
      let hub := { hub with
        clients := hub.clients.filter fun member => member ≠ client
        byRoom := hub.byRoom.set key others
        objects := hub.objects.set client.room room }
      if room.size = 0 then
        { hub with
          byRoom := hub.byRoom.delete key
          -- A dirty room outlives its last participant until the sweep.
          rooms := if room.dirty then hub.rooms else hub.rooms.delete key }
      else hub

/-- `flushIdleRooms` up to its loop; `ticking` keeps a second sweep out. -/
def startSweep (hub : CollabWebSocketHub) : Option CollabWebSocketHub :=
  match hub.sweep with
  | some _ => none
  | none => some { hub with sweep := some ⟨hub.now - hub.idleFlushMs, none, hub.rooms.values⟩ }

/-- One turn of the loop of `flushIdleRooms`, up to its `await`; at the end of
the list, the end of the sweep. -/
def flushNext (hub : CollabWebSocketHub) : Option CollabWebSocketHub :=
  match hub.sweep with
  | none => none
  | some ⟨_, some _, _⟩ => none
  | some ⟨_, none, []⟩ => some { hub with sweep := none }
  | some ⟨deadline, none, r :: remaining⟩ =>
    hub.objects[r]?.map fun room =>
      let rest := { hub with sweep := some ⟨deadline, none, remaining⟩ }
      if room.size > 0 ∨ room.lastActivityAt > deadline then rest
      else if room.dirty then
        { hub with sweep := some ⟨deadline, some hub.calls, remaining⟩ }.callWrite .flush r room
      else { rest with rooms := hub.rooms.delete (roomKey room.scope) }

def resumeSweep (hub : CollabWebSocketHub) : CollabWebSocketHub :=
  { hub with sweep := hub.sweep.map fun sweep => { sweep with current := none } }

/-- What comes after the `await` of a write. `save` marks the revision it had
read before; `flushIdleRooms` marks the one the document has by now, and drops
the room. -/
def finishWrite (hub : CollabWebSocketHub) (call : CallId) (ok : Bool) :
    Option CollabWebSocketHub :=
  match hub.writes.get? call with
  | none => none
  | some write =>
    if ok && !write.landed then none
    else
      hub.objects[write.room]?.map fun room =>
        let hub := { hub with writes := hub.writes.delete call }
        match write.writer, ok with
        | .save, true => hub.setObject write.room (room.markSaved write.revision)
        | .save, false => hub
        | .flush, true =>
          let hub := hub.setObject write.room (room.markSaved room.document.revision)
          { hub with rooms := hub.rooms.delete (roomKey room.scope) }.resumeSweep
        | .flush, false => (hub.setObject write.room (room.touch hub.now)).resumeSweep

end CollabWebSocketHub

/-! ## Events -/

inductive HubEvent where
  | tick (elapsed : Nat)
  | upgrade (scope : RoomScope) (principal : User)
  | read (call : CallId) (snapshot : Option FileSnapshot)
  | op (participantId : ParticipantId) (revision : Int) (operation : TextOperation)
      (selection : Option SelectionRange)
  | selection (participantId : ParticipantId) (revision : Int) (selection : SelectionRange)
  | resync (participantId : ParticipantId)
  | save (participantId : ParticipantId)
  | land (call : CallId)
  | written (call : CallId) (ok : Bool)
  | disconnect (participantId : ParticipantId)
  | sweep
  | flush
  deriving DecidableEq, Repr

open CollabWebSocketHub in
/-- The hub after an event; `none` when the event cannot come. -/
def step (hub : CollabWebSocketHub) : HubEvent → Option CollabWebSocketHub
  | .tick elapsed => some { hub with now := hub.now + elapsed }
  | .upgrade scope principal => some (hub.tryUpgrade scope principal)
  | .read call snapshot => hub.finishUpgrade call snapshot
  | .op participantId revision operation selection =>
    hub.handle participantId fun room => handleOp room participantId revision operation selection
  | .selection participantId revision selection =>
    hub.handle participantId fun room => handleSelection room participantId revision selection
  | .resync participantId => hub.handle participantId id
  | .save participantId => hub.save participantId
  | .land call => hub.land call
  | .written call ok => hub.finishWrite call ok
  | .disconnect participantId => hub.forget participantId
  | .sweep => hub.startSweep
  | .flush => hub.flushNext

end AgenticGit.Gateway
