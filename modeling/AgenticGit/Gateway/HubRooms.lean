import AgenticGit.Lib.Runs
import AgenticGit.Gateway.Hub

/- Which room object a connected client holds, over whole runs of the hub.

   What is proved:
     1. `OneRoom.*` — each operation of the hub keeps `OneRoom`, the invariant:
        every connected client holds the room registered under its key, and the
        participants of a room are the connected clients that hold it.
     2. `step_oneRoom` — so does every `Orderly` step.
     3. `one_document_per_file` — **one live document per shared file**, in every
        run whose steps are orderly.

   Two steps are not orderly, and the hub takes both: an upgrade that creates a
   room although another has been registered since it looked, and a flush that
   drops a room somebody has joined since its write was called. -/
namespace AgenticGit.Gateway
open AgenticGit.Collab AgenticGit.Runs
open CollabRoom

namespace CollabWebSocketHub

/-! ## The invariant -/

/-- Every connected client holds the room registered under its key. -/
structure OneRoom (hub : CollabWebSocketHub) : Prop where
  registered : ∀ k r, hub.rooms.get? k = some r → hub.keyOf r = some k
  connected : ∀ c ∈ hub.clients, ∃ k, hub.keyOf c.room = some k ∧ hub.rooms.get? k = some c.room
  /-- The participants of a room are the connected clients that hold it. -/
  seated : ∀ r room, hub.objects[r]? = some room → ∀ p,
    room.members.has p = true ↔ ∃ c ∈ hub.clients, c.room = r ∧ c.participantId = p
  drawn : ∀ c ∈ hub.clients, c.participantId < hub.draws
  distinct : ∀ c ∈ hub.clients, ∀ c' ∈ hub.clients, c.participantId = c'.participantId → c = c'
  /-- A broadcast goes to the connected clients of the key. -/
  listed : ∀ k c, c ∈ (hub.byRoom.get? k).getD [] ↔ c ∈ hub.clients ∧ hub.keyOf c.room = some k
  /-- A sweep has one room a key, and one that is no longer registered was left
  after the sweep's deadline. -/
  swept : ∀ sweep, hub.sweep = some sweep → sweep.deadline < hub.now ∧
    (sweep.remaining.map hub.keyOf).Nodup ∧
    ∀ r ∈ sweep.remaining, ∃ room, hub.objects[r]? = some room ∧
      (hub.rooms.get? (roomKey room.scope) = some r ∨ sweep.deadline < room.lastActivityAt)
  /-- Only the sweep flushes, one room at a time, and it does not come back to
  a key it has passed. -/
  flushing : ∀ call write, hub.writes.get? call = some write → write.writer = .flush →
    ∃ sweep, hub.sweep = some sweep ∧ sweep.current = some call ∧
      ∃ k, hub.keyOf write.room = some k ∧ some k ∉ sweep.remaining.map hub.keyOf

theorem keyOf_eq_some {hub : CollabWebSocketHub} {r : RoomId} {k : String} :
    hub.keyOf r = some k ↔ ∃ room, hub.objects[r]? = some room ∧ roomKey room.scope = k :=
  Option.map_eq_some_iff

theorem getElem?_setObject {hub : CollabWebSocketHub} {r : RoomId} {room : CollabRoom}
    (hr : hub.objects[r]? = some room) (room' : CollabRoom) (i : RoomId) :
    (hub.setObject r room').objects[i]? = if i = r then some room' else hub.objects[i]? := by
  have hlt : r < hub.objects.length := (List.getElem?_eq_some_iff.mp hr).1
  rw [setObject, List.getElem?_set]
  by_cases h : i = r
  · rw [if_pos h, if_pos h.symm, if_pos hlt]
  · rw [if_neg h, if_neg (Ne.symm h)]

theorem keyOf_setObject {hub : CollabWebSocketHub} {r : RoomId} {room room' : CollabRoom}
    (hr : hub.objects[r]? = some room) (hs : room'.scope = room.scope) :
    (hub.setObject r room').keyOf = hub.keyOf := by
  funext i
  rw [keyOf, getElem?_setObject hr, keyOf]
  split
  · rename_i h
    rw [h, hr, Option.map_some, Option.map_some, hs]
  · rfl

theorem keyOf_create (hub : CollabWebSocketHub) (scope : RoomScope) (content : Text)
    {r : RoomId} (hr : r < hub.objects.length) :
    (hub.create scope content).keyOf r = hub.keyOf r := by
  rw [keyOf, create, keyOf, List.getElem?_append_left hr]

theorem lt_of_keyOf {hub : CollabWebSocketHub} {r : RoomId} {k : String}
    (h : hub.keyOf r = some k) : r < hub.objects.length := by
  obtain ⟨room, hr, _⟩ := keyOf_eq_some.mp h
  exact (List.getElem?_eq_some_iff.mp hr).1

theorem client?_eq_some {hub : CollabWebSocketHub} {p : ParticipantId} {c : CollabClient}
    (h : hub.client? p = some c) : c ∈ hub.clients ∧ c.participantId = p :=
  ⟨List.mem_of_find?_eq_some h, by simpa using List.find?_some h⟩

/-- **What joining a room does to the hub**: there is one more client, it is seated
in the room, and nothing else changes. -/
theorem join_eq {hub : CollabWebSocketHub} {r : RoomId} {room : CollabRoom} (principal : User)
    (hr : hub.objects[r]? = some room) :
    ∃ client room', client.room = r ∧ client.participantId = hub.draws ∧
      room'.scope = room.scope ∧ room'.document = room.document ∧
      room'.savedRevision = room.savedRevision ∧ room'.lastActivityAt = hub.now ∧
      (∀ p, room'.members.has p = true ↔ p = hub.draws ∨ room.members.has p = true) ∧
      hub.join r principal = { hub with
        draws := hub.draws + 1
        objects := hub.objects.set r room'
        clients := hub.clients ++ [client]
        byRoom := hub.byRoom.set (roomKey room.scope) (hub.membersOf room.scope ++ [client]) } := by
  unfold join
  rw [hr]
  refine ⟨_, _, ?_, ?_, ?_, ?_, ?_, ?_, ?_, rfl⟩
  · rfl
  · rfl
  · rfl
  · rfl
  · rfl
  · rfl
  · intro p
    exact has_join room _ p

/-- **What forgetting a client does to the hub**: it leaves its seat, and a room
that is empty then is not broadcast to any more and, when clean, dropped. -/
theorem forget_eq {hub hub' : CollabWebSocketHub} {p : ParticipantId}
    (h : hub.forget p = some hub') :
    ∃ client room, client ∈ hub.clients ∧ client.participantId = p ∧
      hub.objects[client.room]? = some room ∧
      ∃ hub₁ room₁, room₁ = (room.leave p).touch hub.now ∧
        hub₁ = { hub with
          clients := hub.clients.filter fun member => member ≠ client
          byRoom := hub.byRoom.set (roomKey room.scope)
            ((hub.membersOf room.scope).filter fun member => member ≠ client)
          objects := hub.objects.set client.room room₁ } ∧
        ((room₁.size ≠ 0 ∧ hub' = hub₁) ∨
          (room₁.size = 0 ∧ hub' = { hub₁ with
            byRoom := hub₁.byRoom.delete (roomKey room.scope)
            rooms := if room₁.dirty then hub.rooms
              else hub.rooms.delete (roomKey room.scope) })) := by
  unfold forget at h
  split at h
  · cases h
  · rename_i client hc
    obtain ⟨hmem, hp⟩ := client?_eq_some hc
    obtain ⟨room, hroom, rfl⟩ := Option.map_eq_some_iff.mp h
    refine ⟨client, room, hmem, hp, hroom, _, _, rfl, rfl, ?_⟩
    dsimp only
    split
    · rename_i hsize
      exact .inr ⟨hsize, rfl⟩
    · rename_i hsize
      exact .inl ⟨hsize, rfl⟩

/-- **What comes after the `await` of a write**, for each of the two that
await one. -/
theorem finishWrite_eq {hub hub' : CollabWebSocketHub} {call : CallId} {ok : Bool}
    (h : hub.finishWrite call ok = some hub') :
    ∃ write room, hub.writes.get? call = some write ∧ (ok = true → write.landed = true) ∧
      hub.objects[write.room]? = some room ∧
      ∃ hub₁, hub₁ = { hub with writes := hub.writes.delete call } ∧
        ((write.writer = .save ∧ ok = true ∧
            hub' = hub₁.setObject write.room (room.markSaved write.revision)) ∨
          (write.writer = .save ∧ ok = false ∧ hub' = hub₁) ∨
          (write.writer = .flush ∧ ok = true ∧ hub' =
            { hub₁.setObject write.room (room.markSaved room.document.revision) with
              rooms := hub.rooms.delete (roomKey room.scope)
              sweep := hub.sweep.map fun sweep => { sweep with current := none } }) ∨
          (write.writer = .flush ∧ ok = false ∧ hub' =
            { hub₁.setObject write.room (room.touch hub.now) with
              sweep := hub.sweep.map fun sweep => { sweep with current := none } })) := by
  unfold finishWrite at h
  split at h
  · cases h
  · rename_i write hw
    split at h
    · cases h
    · rename_i hlanded
      obtain ⟨room, hroom, rfl⟩ := Option.map_eq_some_iff.mp h
      refine ⟨write, room, hw, ?_, hroom, _, rfl, ?_⟩
      · intro hok
        cases hl : write.landed with
        | true => rfl
        | false => exact absurd (by rw [hok, hl]; rfl) hlanded
      · cases hwr : write.writer <;> cases ok
        · exact .inr (.inl ⟨rfl, rfl, rfl⟩)
        · exact .inl ⟨rfl, rfl, rfl⟩
        · exact .inr (.inr (.inr ⟨rfl, rfl, rfl⟩))
        · exact .inr (.inr (.inl ⟨rfl, rfl, rfl⟩))

/-- **One turn of the sweep**: it ends, passes a room by, calls its write, or drops
it. -/
theorem flushNext_eq {hub hub' : CollabWebSocketHub} (h : hub.flushNext = some hub') :
    ∃ sweep, hub.sweep = some sweep ∧ sweep.current = none ∧
      ((sweep.remaining = [] ∧ hub' = { hub with sweep := none }) ∨
        ∃ r remaining room, sweep.remaining = r :: remaining ∧ hub.objects[r]? = some room ∧
          (hub' = { hub with sweep := some ⟨sweep.deadline, none, remaining⟩ } ∨
            (room.size = 0 ∧ room.lastActivityAt ≤ sweep.deadline ∧
              ((room.dirty = true ∧ hub' =
                  { hub with sweep := some ⟨sweep.deadline, some hub.calls, remaining⟩ }.callWrite
                    .flush r room) ∨
                (room.dirty = false ∧ hub' = { hub with
                  sweep := some ⟨sweep.deadline, none, remaining⟩
                  rooms := hub.rooms.delete (roomKey room.scope) }))))) := by
  unfold flushNext at h
  split at h
  · cases h
  · cases h
  · rename_i hs
    cases h
    exact ⟨_, hs, rfl, .inl ⟨rfl, rfl⟩⟩
  · rename_i deadline r remaining hs
    obtain ⟨room, hroom, hcase⟩ := Option.map_eq_some_iff.mp h
    refine ⟨_, hs, rfl, .inr ⟨r, remaining, room, rfl, hroom, ?_⟩⟩
    dsimp only at hcase
    split at hcase
    · exact .inl hcase.symm
    · rename_i hidle
      rw [not_or] at hidle
      refine .inr ⟨Nat.eq_zero_of_not_pos hidle.1, Int.not_lt.mp hidle.2, ?_⟩
      split at hcase
      · rename_i hdirty
        exact .inl ⟨hdirty, hcase.symm⟩
      · rename_i hclean
        exact .inr ⟨Bool.eq_false_iff.mpr hclean, hcase.symm⟩

/-! ## What each operation keeps -/

namespace OneRoom

variable {hub : CollabWebSocketHub}

theorem new (idleFlushMs : Nat) (idle_pos : 1 ≤ idleFlushMs) (now : Int)
    (disk : OrderedMap RoomScope Text) : OneRoom (.new idleFlushMs idle_pos now disk) where
  registered k r h := by cases h
  connected c h := by cases h
  seated r room h := by cases h
  drawn c h := by cases h
  distinct c h := by cases h
  listed k c := by simp [CollabWebSocketHub.new]
  swept sweep h := by cases h
  flushing call write h := by cases h

theorem room_eq (h : OneRoom hub) {c : CollabClient} (hc : c ∈ hub.clients) {k : String}
    (hk : hub.keyOf c.room = some k) : hub.rooms.get? k = some c.room := by
  obtain ⟨k', hk', hr⟩ := h.connected c hc
  rw [hk] at hk'
  cases hk'
  exact hr

theorem no_client (h : OneRoom hub) {r : RoomId} {room : CollabRoom}
    (hr : hub.objects[r]? = some room) (hsize : room.size = 0) {c : CollabClient}
    (hc : c ∈ hub.clients) : c.room ≠ r := by
  intro hcr
  have hseat := (h.seated r room hr c.participantId).mpr ⟨c, hc, hcr, rfl⟩
  rw [size_eq_zero_iff.mp hsize] at hseat
  cases hseat

variable {hub' : CollabWebSocketHub} {p : ParticipantId}

theorem of_eq (h : OneRoom hub) (hobjects : hub'.objects = hub.objects)
    (hrooms : hub'.rooms = hub.rooms) (hclients : hub'.clients = hub.clients)
    (hbyRoom : hub'.byRoom = hub.byRoom) (hdraws : hub'.draws = hub.draws)
    (hnow : hub.now ≤ hub'.now) (hsweep : hub'.sweep = hub.sweep)
    (hwrites : ∀ call write, hub'.writes.get? call = some write → write.writer = .flush →
      ∃ write', hub.writes.get? call = some write' ∧ write'.writer = .flush ∧
        write'.room = write.room) : OneRoom hub' := by
  have hkey : hub'.keyOf = hub.keyOf := by
    funext r
    rw [keyOf, keyOf, hobjects]
  refine ⟨?_, ?_, ?_, ?_, ?_, ?_, ?_, ?_⟩
  · rw [hrooms, hkey]
    exact h.registered
  · rw [hclients, hrooms, hkey]
    exact h.connected
  · rw [hobjects, hclients]
    exact h.seated
  · rw [hclients, hdraws]
    exact h.drawn
  · rw [hclients]
    exact h.distinct
  · rw [hbyRoom, hclients, hkey]
    exact h.listed
  · rw [hsweep, hkey, hobjects, hrooms]
    intro sweep hs
    obtain ⟨hd, hn, hr⟩ := h.swept sweep hs
    exact ⟨by omega, hn, hr⟩
  · rw [hsweep, hkey]
    intro call write hw hf
    obtain ⟨write', hw', hf', hr⟩ := hwrites call write hw hf
    rw [← hr]
    exact h.flushing call write' hw' hf'

theorem setObject (h : OneRoom hub) {r : RoomId} {room room' : CollabRoom}
    (hr : hub.objects[r]? = some room) (hs : SameSeats room room')
    (ht : room'.lastActivityAt = room.lastActivityAt ∨ room'.lastActivityAt = hub.now) :
    OneRoom (hub.setObject r room') := by
  have hkey : (hub.setObject r room').keyOf = hub.keyOf := keyOf_setObject hr hs.scope
  refine ⟨?_, ?_, ?_, h.drawn, h.distinct, ?_, ?_, ?_⟩
  · rw [hkey]
    exact h.registered
  · rw [hkey]
    exact h.connected
  · intro i x hx p
    rw [getElem?_setObject hr] at hx
    split at hx
    · rename_i hi
      cases hx
      rw [hi, hs.has]
      exact h.seated r room hr p
    · exact h.seated i x hx p
  · rw [hkey]
    exact h.listed
  · rw [hkey]
    intro sweep hsw
    obtain ⟨hd, hn, hm⟩ := h.swept sweep hsw
    refine ⟨hd, hn, fun i hi => ?_⟩
    obtain ⟨x, hx, hx'⟩ := hm i hi
    rw [getElem?_setObject hr]
    split
    · rename_i hir
      rw [hir, hr] at hx
      cases hx
      refine ⟨room', rfl, ?_⟩
      rw [hs.scope]
      rcases hx' with hx' | hx'
      · exact .inl hx'
      · refine .inr ?_
        rcases ht with ht | ht
        · rw [ht]
          exact hx'
        · rw [ht]
          exact hd
    · exact ⟨x, hx, hx'⟩
  · rw [hkey]
    exact h.flushing

/-- A room that nobody sits in is dropped from the registry: it is the one
registered, or nobody holds the one that is, and the sweep has passed it. -/
theorem drop (h : OneRoom hub) {k : String}
    (hempty : ∀ c ∈ hub.clients, hub.keyOf c.room ≠ some k)
    (hsweep : ∀ sweep, hub.sweep = some sweep → ∀ r ∈ sweep.remaining, ∀ room,
      hub.objects[r]? = some room → roomKey room.scope = k → sweep.deadline < room.lastActivityAt) :
    OneRoom { hub with rooms := hub.rooms.delete k } := by
  refine ⟨?_, ?_, h.seated, h.drawn, h.distinct, h.listed, ?_, h.flushing⟩
  · intro k' r hr
    rw [OrderedMap.get?_delete] at hr
    split at hr
    · cases hr
    · exact h.registered k' r hr
  · intro c hc
    obtain ⟨k', hk', hr⟩ := h.connected c hc
    refine ⟨k', hk', ?_⟩
    rw [OrderedMap.get?_delete, if_neg]
    · exact hr
    · intro hkk
      exact hempty c hc (hkk ▸ hk')
  · intro sweep hs
    obtain ⟨hd, hn, hm⟩ := h.swept sweep hs
    refine ⟨hd, hn, fun r hr => ?_⟩
    obtain ⟨room, hroom, hor⟩ := hm r hr
    refine ⟨room, hroom, ?_⟩
    by_cases hk : roomKey room.scope = k
    · exact .inr (hsweep sweep hs r hr room hroom hk)
    · rw [OrderedMap.get?_delete, if_neg hk]
      exact hor

theorem create (h : OneRoom hub) {scope : RoomScope} (content : Text)
    (hnone : hub.rooms.get? (roomKey scope) = none) : OneRoom (hub.create scope content) := by
  have hnew : (hub.create scope content).keyOf hub.objects.length = some (roomKey scope) := by
    rw [keyOf, CollabWebSocketHub.create, List.getElem?_append_right (Nat.le_refl _), Nat.sub_self]
    rfl
  have hold : ∀ {r k}, hub.keyOf r = some k → (hub.create scope content).keyOf r = some k := by
    intro r k hk
    rw [keyOf_create hub scope content (lt_of_keyOf hk)]
    exact hk
  have hget : ∀ {k r}, hub.rooms.get? k = some r →
      (hub.create scope content).rooms.get? k = some r := by
    intro k r hr
    rw [CollabWebSocketHub.create, OrderedMap.get?_set, if_neg]
    · exact hr
    · intro hk
      rw [hk, hnone] at hr
      cases hr
  have hlt : ∀ c ∈ hub.clients, c.room < hub.objects.length := by
    intro c hc
    obtain ⟨k, hk, _⟩ := h.connected c hc
    exact lt_of_keyOf hk
  have hmap : ∀ {sweep}, hub.sweep = some sweep →
      sweep.remaining.map (hub.create scope content).keyOf = sweep.remaining.map hub.keyOf := by
    intro sweep hs
    apply List.map_congr_left
    intro r hr
    obtain ⟨room, hroom, _⟩ := (h.swept sweep hs).2.2 r hr
    exact keyOf_create hub scope content (List.getElem?_eq_some_iff.mp hroom).1
  refine ⟨?_, ?_, ?_, h.drawn, h.distinct, ?_, ?_, ?_⟩
  · intro k r hr
    rw [CollabWebSocketHub.create, OrderedMap.get?_set] at hr
    split at hr
    · rename_i hk
      cases hr
      rw [hk]
      exact hnew
    · exact hold (h.registered k r hr)
  · intro c hc
    obtain ⟨k, hk, hr⟩ := h.connected c hc
    exact ⟨k, hold hk, hget hr⟩
  · intro r room hr p
    rcases Nat.lt_or_ge r hub.objects.length with hlt' | hge
    · rw [CollabWebSocketHub.create, List.getElem?_append_left hlt'] at hr
      exact h.seated r room hr p
    · rw [CollabWebSocketHub.create, List.getElem?_append_right hge] at hr
      have hroom : room = CollabRoom.new scope content hub.now := by
        have hm := List.mem_of_getElem? hr
        exact List.mem_singleton.mp hm
      constructor
      · intro hp
        rw [hroom] at hp
        cases hp
      · rintro ⟨c, hc, rfl, _⟩
        exact absurd (hlt c hc) (Nat.not_lt.mpr hge)
  · intro k c
    refine (h.listed k c).trans ⟨?_, ?_⟩
    · rintro ⟨hc, hk⟩
      exact ⟨hc, hold hk⟩
    · rintro ⟨hc, hk⟩
      rw [keyOf_create hub scope content (hlt c hc)] at hk
      exact ⟨hc, hk⟩
  · intro sweep hs
    obtain ⟨hd, hn, hm⟩ := h.swept sweep hs
    refine ⟨hd, (hmap hs).symm ▸ hn, fun r hr => ?_⟩
    obtain ⟨room, hroom, hor⟩ := hm r hr
    refine ⟨room, ?_, hor.imp_left hget⟩
    rw [CollabWebSocketHub.create, List.getElem?_append_left (List.getElem?_eq_some_iff.mp hroom).1]
    exact hroom
  · intro call write hw hf
    obtain ⟨sweep, hs, hcur, k, hk, hmem⟩ := h.flushing call write hw hf
    exact ⟨sweep, hs, hcur, k, hold hk, (hmap hs).symm ▸ hmem⟩

theorem join (h : OneRoom hub) {r : RoomId} {k : String} (hr : hub.rooms.get? k = some r)
    (principal : User) : OneRoom (hub.join r principal) := by
  obtain ⟨room, hroom, hk⟩ := keyOf_eq_some.mp (h.registered k r hr)
  obtain ⟨client, room', hcroom, hcid, hs, -, -, hact, hhas, hjoin⟩ :=
    join_eq principal hroom
  have hkey : (hub.join r principal).keyOf = hub.keyOf := by
    rw [hjoin]
    exact keyOf_setObject hroom hs
  have hobj : ∀ i, (hub.join r principal).objects[i]? =
      if i = r then some room' else hub.objects[i]? := by
    rw [hjoin]
    exact getElem?_setObject hroom room'
  have hmem : ∀ c, c ∈ (hub.join r principal).clients ↔ c = client ∨ c ∈ hub.clients := by
    intro c
    rw [hjoin, List.mem_append, List.mem_singleton, or_comm]
  have hrooms : (hub.join r principal).rooms = hub.rooms := by rw [hjoin]
  have hsweep : (hub.join r principal).sweep = hub.sweep := by rw [hjoin]
  have hkr : hub.keyOf r = some k := h.registered k r hr
  refine ⟨?_, ?_, ?_, ?_, ?_, ?_, ?_, ?_⟩
  · rw [hrooms, hkey]
    exact h.registered
  · rw [hrooms, hkey]
    intro c hc
    rcases (hmem c).mp hc with rfl | hc
    · rw [hcroom]
      exact ⟨k, hkr, hr⟩
    · exact h.connected c hc
  · intro i x hx p
    rw [hobj] at hx
    split at hx
    · rename_i hi
      cases hx
      rw [hhas, h.seated r room hroom p, hi]
      constructor
      · rintro (rfl | ⟨c, hc, hcr, hcp⟩)
        · exact ⟨client, (hmem client).mpr (.inl rfl), hcroom, hcid⟩
        · exact ⟨c, (hmem c).mpr (.inr hc), hcr, hcp⟩
      · rintro ⟨c, hc, hcr, hcp⟩
        rcases (hmem c).mp hc with rfl | hc
        · exact .inl (hcp.symm.trans hcid)
        · exact .inr ⟨c, hc, hcr, hcp⟩
    · rename_i hi
      rw [h.seated i x hx p]
      constructor
      · rintro ⟨c, hc, hcr, hcp⟩
        exact ⟨c, (hmem c).mpr (.inr hc), hcr, hcp⟩
      · rintro ⟨c, hc, hcr, hcp⟩
        rcases (hmem c).mp hc with rfl | hc
        · exact absurd (hcr.symm.trans hcroom) hi
        · exact ⟨c, hc, hcr, hcp⟩
  · intro c hc
    rw [show (hub.join r principal).draws = hub.draws + 1 by rw [hjoin]]
    rcases (hmem c).mp hc with rfl | hc
    · rw [hcid]
      exact Nat.lt_succ_self _
    · exact Nat.lt_succ_of_lt (h.drawn c hc)
  · intro c hc c' hc' heq
    rcases (hmem c).mp hc with rfl | hc <;> rcases (hmem c').mp hc' with rfl | hc'
    · rfl
    · exact absurd (h.drawn c' hc') (by rw [← heq, hcid]; exact Nat.lt_irrefl _)
    · exact absurd (h.drawn c hc) (by rw [heq, hcid]; exact Nat.lt_irrefl _)
    · exact h.distinct c hc c' hc' heq
  · intro k' c
    rw [hkey, hmem, show (hub.join r principal).byRoom =
      hub.byRoom.set (roomKey room.scope) (hub.membersOf room.scope ++ [client]) by rw [hjoin],
      OrderedMap.get?_set, hk]
    split
    · rename_i hkk
      rw [Option.getD_some, List.mem_append, List.mem_singleton, membersOf, hk, h.listed k c, hkk]
      constructor
      · rintro (⟨hc, hck⟩ | rfl)
        · exact ⟨.inr hc, hck⟩
        · exact ⟨.inl rfl, hcroom ▸ hkr⟩
      · rintro ⟨rfl | hc, hck⟩
        · exact .inr rfl
        · exact .inl ⟨hc, hck⟩
    · rename_i hkk
      rw [h.listed k' c]
      constructor
      · rintro ⟨hc, hck⟩
        exact ⟨.inr hc, hck⟩
      · rintro ⟨rfl | hc, hck⟩
        · rw [hcroom, hkr] at hck
          cases hck
          exact absurd rfl hkk
        · exact ⟨hc, hck⟩
  · rw [hsweep, hkey, hrooms, show (hub.join r principal).now = hub.now by rw [hjoin]]
    intro sweep hsw
    obtain ⟨hd, hn, hm⟩ := h.swept sweep hsw
    refine ⟨hd, hn, fun i hi => ?_⟩
    obtain ⟨x, hx, hor⟩ := hm i hi
    rw [hobj]
    split
    · refine ⟨room', rfl, .inr ?_⟩
      rw [hact]
      exact hd
    · exact ⟨x, hx, hor⟩
  · rw [hsweep, hkey, show (hub.join r principal).writes = hub.writes by rw [hjoin]]
    exact h.flushing

theorem leave (h : OneRoom hub) {client : CollabClient} (hc : client ∈ hub.clients)
    {room : CollabRoom} (hroom : hub.objects[client.room]? = some room) :
    OneRoom { hub with
      clients := hub.clients.filter fun member => member ≠ client
      byRoom := hub.byRoom.set (roomKey room.scope)
        ((hub.membersOf room.scope).filter fun member => member ≠ client)
      objects := hub.objects.set client.room
        ((room.leave client.participantId).touch hub.now) } := by
  generalize hroom' : (room.leave client.participantId).touch hub.now = room'
  have hhas : ∀ p, room'.members.has p = true ↔
      p ≠ client.participantId ∧ room.members.has p = true := by
    intro p
    rw [← hroom']
    exact has_leave room client.participantId p
  have hkey : (hub.setObject client.room room').keyOf = hub.keyOf :=
    keyOf_setObject hroom (by rw [← hroom']; rfl)
  have hobj := getElem?_setObject hroom room'
  have hmem : ∀ c, c ∈ hub.clients.filter (fun member => member ≠ client) ↔
      c ∈ hub.clients ∧ c ≠ client := by
    intro c
    rw [List.mem_filter, decide_eq_true_iff]
  have hkr : hub.keyOf client.room = some (roomKey room.scope) :=
    keyOf_eq_some.mpr ⟨room, hroom, rfl⟩
  refine ⟨?_, ?_, ?_, ?_, ?_, ?_, ?_, ?_⟩
  · intro k r hr
    exact (congrFun hkey r).trans (h.registered k r hr)
  · intro c hc'
    obtain ⟨k, hk, hr⟩ := h.connected c ((hmem c).mp hc').1
    exact ⟨k, (congrFun hkey c.room).trans hk, hr⟩
  · intro i x hx p
    replace hx := (hobj i).symm.trans hx
    split at hx
    · rename_i hi
      cases hx
      rw [hhas, h.seated client.room room hroom p, hi]
      constructor
      · rintro ⟨hp, c, hc', hcr, hcp⟩
        refine ⟨c, (hmem c).mpr ⟨hc', ?_⟩, hcr, hcp⟩
        rintro rfl
        exact hp hcp.symm
      · rintro ⟨c, hc', hcr, hcp⟩
        obtain ⟨hc', hne⟩ := (hmem c).mp hc'
        refine ⟨?_, c, hc', hcr, hcp⟩
        intro hp
        exact hne (h.distinct c hc' client hc (hcp.trans hp))
    · rename_i hi
      rw [h.seated i x hx p]
      constructor
      · rintro ⟨c, hc', hcr, hcp⟩
        refine ⟨c, (hmem c).mpr ⟨hc', ?_⟩, hcr, hcp⟩
        rintro rfl
        exact hi hcr.symm
      · rintro ⟨c, hc', hcr, hcp⟩
        exact ⟨c, ((hmem c).mp hc').1, hcr, hcp⟩
  · intro c hc'
    exact h.drawn c ((hmem c).mp hc').1
  · intro c hc₁ c' hc₂
    exact h.distinct c ((hmem c).mp hc₁).1 c' ((hmem c').mp hc₂).1
  · intro k c
    refine Iff.trans ?_ (and_congr (hmem c).symm (iff_of_eq
      (congrArg (· = some k) (congrFun hkey c.room).symm)))
    rw [OrderedMap.get?_set]
    split
    · rename_i hk
      rw [Option.getD_some, List.mem_filter, decide_eq_true_iff, membersOf, h.listed, hk]
      tauto
    · rename_i hk
      rw [h.listed k c]
      constructor
      · rintro ⟨hc', hck⟩
        refine ⟨⟨hc', ?_⟩, hck⟩
        rintro rfl
        rw [hkr] at hck
        cases hck
        exact hk rfl
      · rintro ⟨⟨hc', _⟩, hck⟩
        exact ⟨hc', hck⟩
  · intro sweep hs
    obtain ⟨hd, hn, hm⟩ := h.swept sweep hs
    refine ⟨hd, (congrArg (List.map · sweep.remaining) hkey) ▸ hn, fun i hi => ?_⟩
    obtain ⟨x, hx, hor⟩ := hm i hi
    have hxi := hobj i
    split at hxi
    · refine ⟨room', hxi, .inr ?_⟩
      rw [← hroom']
      exact hd
    · exact ⟨x, hxi.trans hx, hor⟩
  · intro call write hw hf
    obtain ⟨sweep, hs, hcur, k, hk, hmem'⟩ := h.flushing call write hw hf
    exact ⟨sweep, hs, hcur, k, (congrFun hkey _).trans hk,
      (congrArg (List.map · sweep.remaining) hkey) ▸ hmem'⟩

theorem unlist (h : OneRoom hub) {k : String}
    (hempty : ∀ c ∈ hub.clients, hub.keyOf c.room ≠ some k) :
    OneRoom { hub with byRoom := hub.byRoom.delete k } := by
  refine ⟨h.registered, h.connected, h.seated, h.drawn, h.distinct, ?_, h.swept, h.flushing⟩
  intro k' c
  rw [OrderedMap.get?_delete]
  split
  · rename_i hk
    constructor
    · intro hc
      cases hc
    · rintro ⟨hc, hck⟩
      exact absurd hck (hk ▸ hempty c hc)
  · exact h.listed k' c

theorem nobody (h : OneRoom hub) {r : RoomId} {room : CollabRoom} {k : String}
    (hroom : hub.objects[r]? = some room) (hsize : room.size = 0)
    (hr : hub.rooms.get? k = some r) : ∀ c ∈ hub.clients, hub.keyOf c.room ≠ some k := by
  intro c hc hk
  have hcr := h.room_eq hc hk
  rw [hr] at hcr
  cases hcr
  exact h.no_client hroom hsize hc rfl

theorem forget (h : OneRoom hub) (hf : hub.forget p = some hub') : OneRoom hub' := by
  obtain ⟨client, room, hc, hp, hroom, hub₁, room₁, hroom₁, hhub₁, hcases⟩ := forget_eq hf
  subst hp
  have h₁ : OneRoom hub₁ := by
    rw [hhub₁, hroom₁]
    exact h.leave hc hroom
  rcases hcases with ⟨_, rfl⟩ | ⟨hsize, rfl⟩
  · exact h₁
  · have hobj : hub₁.objects[client.room]? = some room₁ := by
      rw [hhub₁]
      exact (getElem?_setObject hroom room₁ client.room).trans (if_pos rfl)
    have hreg : hub₁.rooms.get? (roomKey room.scope) = some client.room := by
      rw [hhub₁]
      exact h.room_eq hc (keyOf_eq_some.mpr ⟨room, hroom, rfl⟩)
    have hempty := h₁.nobody hobj hsize hreg
    have h₂ := h₁.unlist hempty
    have hrooms : hub.rooms = hub₁.rooms := by rw [hhub₁]
    rw [hrooms]
    split
    · exact h₂
    · refine h₂.drop hempty ?_
      intro sweep hs r hr x hx hk
      obtain ⟨hd, _, hm⟩ := h₁.swept sweep hs
      obtain ⟨y, hy, hor⟩ := hm r hr
      rw [show hub₁.objects[r]? = some x from hx] at hy
      cases hy
      rcases hor with hor | hor
      · -- Still registered: it is the room just left, which was touched.
        rw [hk, hreg] at hor
        cases hor
        rw [show hub₁.objects[client.room]? = some x from hx] at hobj
        cases hobj
        rw [hroom₁]
        have hnow : hub₁.now = hub.now := by rw [hhub₁]
        rw [hnow] at hd
        exact hd
      · exact hor

theorem handle (h : OneRoom hub) {change : CollabRoom → CollabRoom}
    (hchange : ∀ room, SameSeats room (change room) ∧
      (change room).lastActivityAt = room.lastActivityAt) (hh : hub.handle p change = some hub') :
    OneRoom hub' := by
  unfold CollabWebSocketHub.handle at hh
  split at hh
  · cases hh
  · obtain ⟨room, hroom, rfl⟩ := Option.map_eq_some_iff.mp hh
    obtain ⟨hs, ht⟩ := hchange (room.touch hub.now)
    exact h.setObject hroom ⟨hs.scope, hs.has⟩ (.inr ht)

theorem callSave (h : OneRoom hub) (r : RoomId) (room : CollabRoom) :
    OneRoom (hub.callWrite .save r room) := by
  refine h.of_eq rfl rfl rfl rfl rfl (Int.le_refl _) rfl ?_
  intro call write hw hf
  rw [callWrite, OrderedMap.get?_set] at hw
  split at hw
  · cases hw
    cases hf
  · exact ⟨write, hw, hf, rfl⟩

theorem save (h : OneRoom hub) (hs : hub.save p = some hub') : OneRoom hub' := by
  unfold CollabWebSocketHub.save at hs
  split at hs
  · cases hs
  · obtain ⟨room, hroom, rfl⟩ := Option.map_eq_some_iff.mp hs
    exact (h.setObject hroom (sameSeats_touch room hub.now) (.inr rfl)).callSave _ _

theorem land (h : OneRoom hub) {call : CallId} (hl : hub.land call = some hub') : OneRoom hub' := by
  unfold CollabWebSocketHub.land at hl
  split at hl
  · cases hl
  · rename_i write hw
    split at hl
    · cases hl
    · cases hl
      refine h.of_eq rfl rfl rfl rfl rfl (Int.le_refl _) rfl ?_
      intro call' write' hw' hf
      dsimp only at hw'
      rw [OrderedMap.get?_set] at hw'
      split at hw'
      · rename_i hc
        cases hw'
        exact ⟨write, hc ▸ hw, hf, rfl⟩
      · exact ⟨write', hw', hf, rfl⟩

theorem dropWrite (h : OneRoom hub) (call : CallId) :
    OneRoom { hub with writes := hub.writes.delete call } := by
  refine h.of_eq rfl rfl rfl rfl rfl (Int.le_refl _) rfl ?_
  intro call' write hw hf
  dsimp only at hw
  rw [OrderedMap.get?_delete] at hw
  split at hw
  · cases hw
  · exact ⟨write, hw, hf, rfl⟩

theorem setSweep (h : OneRoom hub) {sweep : Option Sweep}
    (hnone : ∀ call write, hub.writes.get? call = some write → write.writer ≠ .flush)
    (hswept : ∀ s, sweep = some s → s.deadline < hub.now ∧ (s.remaining.map hub.keyOf).Nodup ∧
      ∀ r ∈ s.remaining, ∃ room, hub.objects[r]? = some room ∧
        (hub.rooms.get? (roomKey room.scope) = some r ∨ s.deadline < room.lastActivityAt)) :
    OneRoom { hub with sweep := sweep } :=
  ⟨h.registered, h.connected, h.seated, h.drawn, h.distinct, h.listed, hswept,
    fun call write hw hf => absurd hf (hnone call write hw)⟩

theorem no_flush (h : OneRoom hub) (hidle : ∀ sweep, hub.sweep = some sweep → sweep.current = none)
    (call : CallId) (write : PendingWrite) (hw : hub.writes.get? call = some write) :
    write.writer ≠ .flush := by
  intro hf
  obtain ⟨sweep, hs, hcur, _⟩ := h.flushing call write hw hf
  rw [hidle sweep hs] at hcur
  cases hcur

theorem startSweep (h : OneRoom hub) (hs : hub.startSweep = some hub') : OneRoom hub' := by
  unfold CollabWebSocketHub.startSweep at hs
  split at hs
  · cases hs
  · rename_i hnone
    cases hs
    refine h.setSweep (h.no_flush ?_) ?_
    · intro sweep hsw
      rw [hnone] at hsw
      cases hsw
    · intro s hs
      cases hs
      have hkeys : hub.rooms.values.map hub.keyOf = hub.rooms.keys.map some := by
        rw [OrderedMap.values, OrderedMap.keys, List.map_map, List.map_map]
        apply List.map_congr_left
        rintro ⟨k, r⟩ he
        exact h.registered k r (OrderedMap.get?_eq_some_iff.mpr he)
      refine ⟨?_, ?_, ?_⟩
      · have hpos := hub.idle_pos
        dsimp only
        omega
      · rw [hkeys]
        exact hub.rooms.nodup.map (Option.some_injective _)
      · intro r hr
        obtain ⟨k, hk⟩ := OrderedMap.mem_values_iff.mp hr
        obtain ⟨room, hroom, hkey⟩ := keyOf_eq_some.mp (h.registered k r hk)
        exact ⟨room, hroom, .inl (hkey.symm ▸ hk)⟩

theorem advance (h : OneRoom hub) {sweep : Sweep} (hs : hub.sweep = some sweep)
    (hcur : sweep.current = none) {r : RoomId} {remaining : List RoomId}
    (hrem : sweep.remaining = r :: remaining) :
    OneRoom { hub with sweep := some ⟨sweep.deadline, none, remaining⟩ } := by
  obtain ⟨hd, hn, hm⟩ := h.swept sweep hs
  rw [hrem] at hn hm
  refine h.setSweep (h.no_flush ?_) ?_
  · intro s hs'
    rw [hs] at hs'
    cases hs'
    exact hcur
  · intro s hs'
    cases hs'
    exact ⟨hd, (List.nodup_cons.mp hn).2, fun i hi => hm i (List.mem_cons_of_mem _ hi)⟩

theorem flushNext (h : OneRoom hub) (hf : hub.flushNext = some hub') : OneRoom hub' := by
  obtain ⟨sweep, hs, hcur, ⟨_, rfl⟩ | ⟨r, remaining, room, hrem, hroom, hcase⟩⟩ := flushNext_eq hf
  · refine h.setSweep (h.no_flush ?_) ?_
    · intro s hs'
      rw [hs] at hs'
      cases hs'
      exact hcur
    · intro s hs'
      cases hs'
  · have hadv := h.advance hs hcur hrem
    obtain ⟨hd, hn, hm⟩ := h.swept sweep hs
    rw [hrem, List.map_cons, List.nodup_cons] at hn
    have hkr : hub.keyOf r = some (roomKey room.scope) := keyOf_eq_some.mpr ⟨room, hroom, rfl⟩
    rcases hcase with rfl | ⟨hsize, hidle, ⟨_, rfl⟩ | ⟨_, rfl⟩⟩
    · exact hadv
    · -- The only write of a flush is the one called here.
      refine ⟨h.registered, h.connected, h.seated, h.drawn, h.distinct, h.listed, ?_, ?_⟩
      · intro s hs'
        cases hs'
        exact hadv.swept ⟨sweep.deadline, none, remaining⟩ rfl
      · intro call write hw hflush
        rw [callWrite, OrderedMap.get?_set] at hw
        split at hw
        · rename_i hc
          cases hw
          exact ⟨_, rfl, congrArg some hc.symm, _, hkr, hkr ▸ hn.1⟩
        · refine absurd hflush (h.no_flush ?_ call write hw)
          intro s hs'
          rw [hs] at hs'
          cases hs'
          exact hcur
    · -- An idle room the sweep reaches is still registered, and it is empty.
      obtain ⟨x, hx, hor⟩ := hm r (hrem ▸ List.mem_cons_self)
      rw [hroom] at hx
      cases hx
      have hreg : hub.rooms.get? (roomKey room.scope) = some r := by
        rcases hor with hor | hor
        · exact hor
        · omega
      refine hadv.drop (h.nobody hroom hsize hreg) ?_
      intro s hs' i hi x hx hk
      cases hs'
      refine absurd ?_ hn.1
      rw [hkr, ← hk]
      exact List.mem_map.mpr ⟨i, hi, keyOf_eq_some.mpr ⟨x, hx, rfl⟩⟩

end OneRoom

/-! ## Runs -/

/-- Nobody sits in the room registered under the key. -/
def Unoccupied (hub : CollabWebSocketHub) (key : String) : Prop :=
  ∀ r ∈ hub.rooms.get? key, ∀ room ∈ hub.objects[r]?, room.size = 0

namespace OneRoom

variable {hub : CollabWebSocketHub}

theorem finishWrite (h : OneRoom hub) {hub' : CollabWebSocketHub} {call : CallId} {ok : Bool}
    (hf : hub.finishWrite call ok = some hub')
    (hempty : ok = true → ∀ write ∈ hub.writes.get? call, write.writer = .flush →
      ∀ room ∈ hub.objects[write.room]?, hub.Unoccupied (roomKey room.scope)) : OneRoom hub' := by
  obtain ⟨write, room, hw, _, hroom, hub₁, hhub₁, hcase⟩ := finishWrite_eq hf
  have h₁ : OneRoom hub₁ := by
    rw [hhub₁]
    exact h.dropWrite call
  have hroom₁ : hub₁.objects[write.room]? = some room := by
    rw [hhub₁]
    exact hroom
  have hseats := sameSeats_markSaved room
  -- The sweep goes on, and the flush that was its own is over.
  have hresume : ∀ room', SameSeats room room' →
      (room'.lastActivityAt = room.lastActivityAt ∨ room'.lastActivityAt = hub₁.now) →
      write.writer = .flush →
      OneRoom { hub₁.setObject write.room room' with
        sweep := hub.sweep.map fun sweep => { sweep with current := none } } := by
    intro room' hs ht hflush
    have h₂ := h₁.setObject hroom₁ hs ht
    obtain ⟨sweep, hsw, hcur, _⟩ := h.flushing call write hw hflush
    have hsw₁ : hub₁.sweep = some sweep := by
      rw [hhub₁]
      exact hsw
    refine h₂.setSweep ?_ ?_
    · intro call' write' hw' hflush'
      have hw₁ : (hub.writes.delete call).get? call' = some write' := by
        rw [hhub₁] at hw'
        exact hw'
      rw [OrderedMap.get?_delete] at hw₁
      split at hw₁
      · cases hw₁
      · rename_i hne
        obtain ⟨sweep', hsw', hcur', _⟩ := h.flushing call' write' hw₁ hflush'
        rw [hsw] at hsw'
        cases hsw'
        rw [hcur] at hcur'
        cases hcur'
        exact hne rfl
    · intro s hs'
      rw [hsw] at hs'
      cases hs'
      exact h₂.swept sweep hsw₁
  rcases hcase with ⟨_, _, rfl⟩ | ⟨_, _, rfl⟩ | ⟨hflush, rfl, rfl⟩ | ⟨hflush, _, rfl⟩
  · exact h₁.setObject hroom₁ (hseats _) (.inl rfl)
  · exact h₁
  · have h₂ := hresume (room.markSaved room.document.revision) (hseats _) (.inl rfl) hflush
    have hrooms : hub.rooms = hub₁.rooms := by rw [hhub₁]
    have hunocc := hempty rfl write hw hflush room hroom
    obtain ⟨sweep, hsw, _, k, hk, hpassed⟩ := h.flushing call write hw hflush
    rw [keyOf_eq_some.mpr ⟨room, hroom, rfl⟩] at hk
    cases hk
    have hkey₁ : hub₁.keyOf = hub.keyOf := by
      rw [hhub₁]
      rfl
    have hkey : (hub₁.setObject write.room (room.markSaved room.document.revision)).keyOf =
        hub.keyOf := (keyOf_setObject hroom₁ (hseats _).scope).trans hkey₁
    rw [hrooms]
    refine h₂.drop ?_ ?_
    · intro c hc hck
      have hc' : c ∈ hub.clients := by
        rw [hhub₁] at hc
        exact hc
      replace hck : hub.keyOf c.room = some (roomKey room.scope) :=
        (congrFun hkey c.room).symm.trans hck
      have hreg := h.room_eq hc' hck
      obtain ⟨x, hx, _⟩ := keyOf_eq_some.mp hck
      exact h.no_client hx (hunocc c.room hreg x hx) hc' rfl
    · intro s hs' i hi x hx hk
      dsimp only at hs'
      rw [hsw] at hs'
      cases hs'
      refine absurd ?_ hpassed
      rw [← hk, ← congrArg (List.map · sweep.remaining) hkey]
      exact List.mem_map.mpr ⟨i, hi, keyOf_eq_some.mpr ⟨x, hx, rfl⟩⟩
  · exact hresume (room.touch hub.now) (sameSeats_touch _ _) (.inr (by rw [hhub₁]; rfl)) hflush

theorem tryUpgrade (h : OneRoom hub) (scope : RoomScope) (principal : User) :
    OneRoom (hub.tryUpgrade scope principal) := by
  unfold CollabWebSocketHub.tryUpgrade
  dsimp only
  split
  · rename_i r hr
    split
    · exact h
    · exact h.join hr principal
  · split
    · exact h
    · refine h.of_eq rfl rfl rfl rfl rfl (Int.le_refl _) rfl ?_
      intro call write hw hf
      exact ⟨write, hw, hf, rfl⟩

theorem finishUpgrade (h : OneRoom hub) {hub' : CollabWebSocketHub} {call : CallId}
    {snapshot : Option FileSnapshot} (hf : hub.finishUpgrade call snapshot = some hub')
    (hfree : ∀ read ∈ hub.reads.get? call, ∀ file ∈ snapshot, file.binary = false →
      file.truncated = false → hub.rooms.get? (roomKey read.scope) = none) : OneRoom hub' := by
  unfold CollabWebSocketHub.finishUpgrade at hf
  split at hf
  · cases hf
  · rename_i read hr
    have h₁ : OneRoom { hub with reads := hub.reads.delete call } := by
      refine h.of_eq rfl rfl rfl rfl rfl (Int.le_refl _) rfl ?_
      intro call write hw hf
      exact ⟨write, hw, hf, rfl⟩
    cases hsnap : snapshot with
    | none =>
      rw [hsnap] at hf
      cases hf
      exact h₁
    | some file =>
      rw [hsnap] at hf
      dsimp only at hf
      split at hf
      · cases hf
        exact h₁
      · rename_i hreadable
        cases hf
        rw [Bool.not_eq_true, Bool.or_eq_false_iff] at hreadable
        have hnone := hfree read hr file hsnap hreadable.1 hreadable.2
        have hreg : (hub.rooms.set (roomKey read.scope) hub.objects.length).get?
            (roomKey read.scope) = some hub.objects.length := by
          rw [OrderedMap.get?_set, if_pos rfl]
        exact (h₁.create file.content hnone).join hreg read.principal

end OneRoom

/-- What the runs below are asked of: an upgrade creates a room only where none is
registered by then, and the sweep drops a room it has written only while nobody
sits in the room registered under its key. -/
def Orderly (hub : CollabWebSocketHub) : HubEvent → Prop
  | .read call snapshot => ∀ read ∈ hub.reads.get? call, ∀ file ∈ snapshot,
      file.binary = false → file.truncated = false → hub.rooms.get? (roomKey read.scope) = none
  | .written call ok => ok = true → ∀ write ∈ hub.writes.get? call, write.writer = .flush →
      ∀ room ∈ hub.objects[write.room]?, hub.Unoccupied (roomKey room.scope)
  | _ => True

instance (hub : CollabWebSocketHub) (key : String) : Decidable (hub.Unoccupied key) :=
  inferInstanceAs (Decidable (∀ r ∈ hub.rooms.get? key, ∀ room ∈ hub.objects[r]?, room.size = 0))

instance (hub : CollabWebSocketHub) : DecidablePred hub.Orderly
  | .read call snapshot => inferInstanceAs (Decidable (∀ read ∈ hub.reads.get? call,
      ∀ file ∈ snapshot, file.binary = false → file.truncated = false →
      hub.rooms.get? (roomKey read.scope) = none))
  | .written call ok => inferInstanceAs (Decidable (ok = true →
      ∀ write ∈ hub.writes.get? call, write.writer = .flush →
      ∀ room ∈ hub.objects[write.room]?, hub.Unoccupied (roomKey room.scope)))
  | .tick _ | .upgrade _ _ | .op _ _ _ _ | .selection _ _ _ | .resync _ | .save _ | .land _
  | .disconnect _ | .sweep | .flush => isTrue trivial

end CollabWebSocketHub

open CollabWebSocketHub

theorem handleOp_seats (room : CollabRoom) (p : ParticipantId) (revision : Int)
    (operation : TextOperation) (selection : Option SelectionRange) :
    SameSeats room (handleOp room p revision operation selection) ∧
      (handleOp room p revision operation selection).lastActivityAt = room.lastActivityAt := by
  unfold handleOp
  dsimp only
  split
  · exact ⟨.rfl, rfl⟩
  · split
    · rename_i h
      obtain ⟨_, hs, _, ht⟩ := receive_ok h
      exact ⟨hs, ht⟩
    · exact ⟨.rfl, rfl⟩

theorem handleSelection_seats (room : CollabRoom) (p : ParticipantId) (revision : Int)
    (selection : SelectionRange) :
    SameSeats room (handleSelection room p revision selection) ∧
      (handleSelection room p revision selection).lastActivityAt = room.lastActivityAt := by
  unfold handleSelection
  split
  · rename_i h
    obtain ⟨hs, _, _, ht⟩ := setSelection_ok h
    exact ⟨hs, ht⟩
  · exact ⟨.rfl, rfl⟩

/-- **An orderly step keeps every client on the registered room.** -/
theorem step_oneRoom {hub hub' : CollabWebSocketHub} {e : HubEvent} (h : OneRoom hub)
    (hok : Orderly hub e) (hs : step hub e = some hub') : OneRoom hub' := by
  cases e with
  | tick elapsed =>
    cases hs
    refine h.of_eq rfl rfl rfl rfl rfl ?_ rfl fun call write hw hf => ⟨write, hw, hf, rfl⟩
    dsimp only
    omega
  | upgrade scope principal =>
    cases hs
    exact h.tryUpgrade scope principal
  | read call snapshot => exact h.finishUpgrade hs hok
  | op p revision operation selection =>
    exact h.handle (fun room => handleOp_seats room p revision operation selection) hs
  | selection p revision selection =>
    exact h.handle (fun room => handleSelection_seats room p revision selection) hs
  | resync p => exact h.handle (fun _ => ⟨.rfl, rfl⟩) hs
  | save p => exact h.save hs
  | land call => exact h.land hs
  | written call ok => exact h.finishWrite hs hok
  | disconnect p => exact h.forget hs
  | sweep => exact h.startSweep hs
  | flush => exact h.flushNext hs

/-! ## One live document per shared file -/

/-- Whoever is connected to a file looks at one document. -/
structure OneDocument (hub : CollabWebSocketHub) : Prop where
  /-- A connected client holds the room registered under its scope's key. -/
  holds : ∀ c ∈ hub.clients, ∃ room, hub.objects[c.room]? = some room ∧
    hub.rooms.get? (roomKey room.scope) = some c.room
  /-- Two clients of equal scopes hold the same room. -/
  same : ∀ c ∈ hub.clients, ∀ c' ∈ hub.clients, ∀ room room',
    hub.objects[c.room]? = some room → hub.objects[c'.room]? = some room' →
    room.scope = room'.scope → c.room = c'.room
  /-- An operation of one of them is handled on the document the other looks
  at. -/
  applied : ∀ c ∈ hub.clients, ∀ c' ∈ hub.clients, ∀ room room',
    hub.objects[c.room]? = some room → hub.objects[c'.room]? = some room' →
    room.scope = room'.scope → ∀ revision operation selection hub',
    step hub (.op c.participantId revision operation selection) = some hub' →
    hub'.objects[c'.room]? =
      some (handleOp (room'.touch hub.now) c.participantId revision operation selection)
  /-- What is broadcast to a room reaches exactly those who hold it. -/
  broadcast : ∀ c ∈ hub.clients, ∀ room, hub.objects[c.room]? = some room → ∀ c',
    c' ∈ hub.membersOf room.scope ↔ c' ∈ hub.clients ∧ c'.room = c.room

theorem find?_client {hub : CollabWebSocketHub} (h : OneRoom hub) {c : CollabClient}
    (hc : c ∈ hub.clients) : hub.client? c.participantId = some c := by
  cases hf : hub.client? c.participantId with
  | none =>
    have hn := List.find?_eq_none.mp hf c hc
    simp at hn
  | some c' =>
    obtain ⟨hc', hp⟩ := client?_eq_some hf
    rw [h.distinct c' hc' c hc hp]

theorem CollabWebSocketHub.OneRoom.oneDocument {hub : CollabWebSocketHub} (h : OneRoom hub) : OneDocument hub := by
  have hheld : ∀ c ∈ hub.clients, ∀ room, hub.objects[c.room]? = some room →
      hub.rooms.get? (roomKey room.scope) = some c.room := by
    intro c hc room hroom
    exact h.room_eq hc (keyOf_eq_some.mpr ⟨room, hroom, rfl⟩)
  have hsame : ∀ c ∈ hub.clients, ∀ c' ∈ hub.clients, ∀ room room',
      hub.objects[c.room]? = some room → hub.objects[c'.room]? = some room' →
      room.scope = room'.scope → c.room = c'.room := by
    intro c hc c' hc' room room' hroom hroom' hscope
    have hr := hheld c hc room hroom
    rw [hscope, hheld c' hc' room' hroom'] at hr
    exact (Option.some.inj hr).symm
  refine ⟨?_, hsame, ?_, ?_⟩
  · intro c hc
    obtain ⟨k, hk, hr⟩ := h.connected c hc
    obtain ⟨room, hroom, rfl⟩ := keyOf_eq_some.mp hk
    exact ⟨room, hroom, hr⟩
  · intro c hc c' hc' room room' hroom hroom' hscope revision operation selection hub' hs
    have hcc := hsame c hc c' hc' room room' hroom hroom' hscope
    rw [← hcc, hroom] at hroom'
    cases hroom'
    rw [step, CollabWebSocketHub.handle, find?_client h hc] at hs
    dsimp only at hs
    rw [hroom] at hs
    cases hs
    rw [← hcc, getElem?_setObject hroom, if_pos rfl]
  · intro c hc room hroom c'
    rw [membersOf, h.listed]
    refine and_congr_right fun hc' => ⟨?_, ?_⟩
    · intro hk
      have hr := h.room_eq hc' hk
      rw [hheld c hc room hroom] at hr
      exact (Option.some.inj hr).symm
    · intro hr
      exact keyOf_eq_some.mpr ⟨room, hr ▸ hroom, rfl⟩

/-- **One live document per shared file.** In every run of the hub whose steps are
orderly, whoever is connected to a file looks at one document: the one
registered under the file's key, which is where their operations go. -/
theorem one_document_per_file {idleFlushMs : Nat} (idle_pos : 1 ≤ idleFlushMs) (start : Int)
    (disk : OrderedMap RoomScope Text) {events : List HubEvent} {hub : CollabWebSocketHub}
    (hrun : run step (.new idleFlushMs idle_pos start disk) events = some hub)
    (hok : Throughout step Orderly (.new idleFlushMs idle_pos start disk) events) :
    OneDocument hub := by
  have hinv : OneRoom hub :=
    run_invariant (fun _ _ _ h hok hs => step_oneRoom h hok hs) (.new idleFlushMs idle_pos start disk)
      hok hrun
  exact hinv.oneDocument

def notes : RoomScope := ⟨"project", "repository", "ada", "notes.md"⟩

def ada : User := ⟨"ada", "Ada"⟩

def notesFile : FileSnapshot := ⟨[104, 105], false, false⟩

/-- One tab opens the file and then another one does. -/
def tabsInTurn : List HubEvent := [.upgrade notes ada, .read 0 (some notesFile), .upgrade notes ada]

/-- Two tabs open the file, each before the other's read is answered. -/
def tabsAtOnce : List HubEvent :=
  [.upgrade notes ada, .upgrade notes ada, .read 0 (some notesFile), .read 1 (some notesFile)]

theorem one_document_per_file_tabsInTurn :
    ∃ hub, run step (.new 300000 (by decide) 0 .empty) tabsInTurn = some hub ∧
      hub.clients.map (·.room) = [0, 0] ∧ OneDocument hub := by
  have hsome : (run step (.new 300000 (by decide) 0 .empty) tabsInTurn).map
      (fun hub => hub.clients.map (·.room)) = some [0, 0] := by decide
  obtain ⟨hub, hrun, hrooms⟩ := Option.map_eq_some_iff.mp hsome
  exact ⟨hub, hrun, hrooms,
    one_document_per_file (by decide) 0 .empty hrun (by decide)⟩

/-- The second read to be answered creates a second room over the first. -/
theorem two_documents_of_one_file :
    ∃ hub, run step (.new 300000 (by decide) 0 .empty) tabsAtOnce = some hub ∧
      ¬OneDocument hub := by
  have hsome : (run step (.new 300000 (by decide) 0 .empty) tabsAtOnce).map
      (fun hub => (hub.clients, hub.objects.map (·.scope))) =
      some ([⟨ada, 0, 0⟩, ⟨ada, 1, 1⟩], [notes, notes]) := by decide
  obtain ⟨hub, hrun, hboth⟩ := Option.map_eq_some_iff.mp hsome
  refine ⟨hub, hrun, ?_⟩
  intro hdoc
  obtain ⟨hclients, hscopes⟩ := Prod.mk.inj hboth
  obtain ⟨room, rest, hobjects, hs, hrest⟩ := List.map_eq_cons_iff.mp hscopes
  obtain ⟨room', rest', rfl, hs', _⟩ := List.map_eq_cons_iff.mp hrest
  have hroom : hub.objects[0]? = some room := by rw [hobjects, List.getElem?_cons_zero]
  have hroom' : hub.objects[1]? = some room' := by
    rw [hobjects, List.getElem?_cons_succ, List.getElem?_cons_zero]
  have hsame := hdoc.same ⟨ada, 0, 0⟩ (by simp [hclients]) ⟨ada, 1, 1⟩ (by simp [hclients]) room
    room' hroom hroom' (hs.trans hs'.symm)
  cases hsame

end AgenticGit.Gateway
