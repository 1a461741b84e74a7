import AgenticGit.Gateway.HubRooms

/- What is on disk when a room is clean, over whole runs of the hub. Here an
   upgrade reads its file and joins in one step (`stepAtomic`), and nobody but
   the hub writes the files.

   What is proved:
     1. `Saved.*` — each operation of the hub keeps `Saved`, the invariant: every
        write in flight carries the text of the revision it was called at, and
        what a room has marked saved is no later than what has landed on disk.
     2. `stepAtomic_saved` — so does every `Settled` step.
     3. `clean_room_is_saved` — **a clean room is a saved room**, in every run
        whose steps are settled.

   The hub takes steps that are not settled. A flush that completes marks the
   revision the document has by then, not the one whose text it wrote; two
   writes of one file may land in the other order; and a room is dropped without
   asking whether a write of it is in flight. -/
namespace AgenticGit.Gateway
open AgenticGit.Collab AgenticGit.Runs AgenticGit.Runtime
open CollabRoom

namespace CollabWebSocketHub

/-! ## Upgrades in one step -/

/-- What `readFile` answers: a file that is not on `disk` cannot be opened. -/
def snapshot (hub : CollabWebSocketHub) (scope : RoomScope) : Option FileSnapshot :=
  (hub.disk.get? scope).map fun content => ⟨content, false, false⟩

def openFile (hub : CollabWebSocketHub) (scope : RoomScope) (principal : User) :
    CollabWebSocketHub :=
  let hub' := hub.tryUpgrade scope principal
  (hub'.finishUpgrade hub.calls (hub.snapshot scope)).getD hub'

end CollabWebSocketHub

open CollabWebSocketHub

/-- `step`, with upgrades in one step. -/
def stepAtomic (hub : CollabWebSocketHub) : HubEvent → Option CollabWebSocketHub
  | .upgrade scope principal => some (hub.openFile scope principal)
  | .read _ _ => none
  | e => step hub e

namespace CollabWebSocketHub

/-! ## The invariant -/

/-- What is on disk for a room: the text of a revision no earlier than the one
marked saved, with every write that has landed before it and every other one
after it. -/
def UpToDate (hub : CollabWebSocketHub) (r : RoomId) (room : CollabRoom) : Prop :=
  ∃ onDisk, onDisk ≤ room.document.revision ∧
    (onDisk = room.document.revision →
      hub.disk.get? room.scope = some room.document.content) ∧
    room.savedRevision ≤ onDisk ∧
    ∀ call write, hub.writes.get? call = some write → write.room = r →
      (write.landed = true → write.revision ≤ onDisk) ∧
      (write.landed = false → onDisk ≤ write.revision)

/-- Every write in flight is of a registered room and carries the text of its
revision; what is marked saved is on disk. -/
structure Saved (hub : CollabWebSocketHub) : Prop where
  reads : hub.reads = .empty
  called : ∀ call write, hub.writes.get? call = some write → call < hub.calls
  written : ∀ call write, hub.writes.get? call = some write →
    ∃ room, hub.objects[write.room]? = some room ∧ room.scope = write.scope ∧
      hub.rooms.get? (roomKey room.scope) = some write.room ∧
      write.revision ≤ room.document.revision ∧
      (write.revision = room.document.revision → write.content = room.document.content)
  /-- Later calls carry later revisions. -/
  ordered : ∀ call write call' write', hub.writes.get? call = some write →
    hub.writes.get? call' = some write' → call < call' → write.room = write'.room →
    write.revision ≤ write'.revision
  saved : ∀ k r room, hub.rooms.get? k = some r → hub.objects[r]? = some room →
    hub.UpToDate r room

def Unwritten (hub : CollabWebSocketHub) (r : RoomId) : Prop :=
  ∀ entry ∈ hub.writes.entries, entry.2.room ≠ r

theorem Unwritten.not_room {hub : CollabWebSocketHub} {r : RoomId} (h : hub.Unwritten r)
    {call : CallId} {write : PendingWrite} (hw : hub.writes.get? call = some write) :
    write.room ≠ r :=
  h (call, write) (OrderedMap.get?_eq_some_iff.mp hw)

/-! ## What each operation keeps -/

namespace Saved

variable {hub : CollabWebSocketHub}

theorem new (idleFlushMs : Nat) (idle_pos : 1 ≤ idleFlushMs) (now : Int)
    (disk : OrderedMap RoomScope Text) : Saved (.new idleFlushMs idle_pos now disk) where
  reads := rfl
  called call write h := by cases h
  written call write h := by cases h
  ordered call write call' write' h := by cases h
  saved k r room h := by cases h

variable {hub' : CollabWebSocketHub} {k : String} {p : ParticipantId}

theorem of_eq (h : Saved hub) (hobjects : hub'.objects = hub.objects)
    (hrooms : hub'.rooms = hub.rooms) (hcalls : hub'.calls = hub.calls)
    (hreads : hub'.reads = hub.reads) (hwrites : hub'.writes = hub.writes)
    (hdisk : hub'.disk = hub.disk) : Saved hub' := by
  obtain ⟨h₁, h₂, h₃, h₄, h₅⟩ := h
  refine ⟨?_, ?_, ?_, ?_, ?_⟩
  · rw [hreads]
    exact h₁
  · rw [hwrites, hcalls]
    exact h₂
  · rw [hwrites, hobjects, hrooms]
    exact h₃
  · rw [hwrites]
    exact h₄
  · unfold UpToDate at h₅ ⊢
    rw [hrooms, hobjects, hwrites, hdisk]
    exact h₅

theorem setObject (h : Saved hub) {r : RoomId} {room room' : CollabRoom}
    (hr : hub.objects[r]? = some room) (hscope : room'.scope = room.scope)
    (hdoc : room'.document = room.document ∨
      room.document.revision < room'.document.revision)
    (hsaved : room'.savedRevision = room.savedRevision ∨
      ∃ call write, hub.writes.get? call = some write ∧ write.room = r ∧ write.landed = true ∧
        room'.savedRevision = write.revision) :
    Saved (hub.setObject r room') := by
  have hle : room.document.revision ≤ room'.document.revision := by
    rcases hdoc with hdoc | hdoc
    · rw [hdoc]
    · exact Nat.le_of_lt hdoc
  have hobj := getElem?_setObject hr room'
  refine ⟨h.reads, h.called, ?_, h.ordered, ?_⟩
  · intro call write hw
    obtain ⟨x, hx, hs, hreg, hrev, hcontent⟩ := h.written call write hw
    by_cases hwr : write.room = r
    · rw [hwr, hr] at hx
      cases hx
      refine ⟨room', ?_, hscope.trans hs, hscope ▸ hreg, Nat.le_trans hrev hle, ?_⟩
      · rw [hobj, if_pos hwr]
      · intro heq
        rcases hdoc with hdoc | hdoc
        · rw [hdoc] at heq ⊢
          exact hcontent heq
        · omega
    · refine ⟨x, ?_, hs, hreg, hrev, hcontent⟩
      rw [hobj, if_neg hwr]
      exact hx
  · intro k i x hk hx
    rw [hobj] at hx
    split at hx
    · rename_i hi
      cases hx
      subst hi
      obtain ⟨onDisk, hd, hcontent, hmark, hw⟩ := h.saved k i room hk hr
      refine ⟨onDisk, Nat.le_trans hd hle, ?_, ?_, hw⟩
      · intro heq
        rcases hdoc with hdoc | hdoc
        · rw [hdoc] at heq
          rw [hscope, hdoc]
          exact hcontent heq
        · omega
      · rcases hsaved with hsaved | ⟨call, write, hget, hwr, hlanded, hsaved⟩
        · rw [hsaved]
          exact hmark
        · rw [hsaved]
          exact (hw call write hget hwr).1 hlanded
    · exact h.saved k i x hk hx

theorem drop (h : Saved hub) (hunwritten : ∀ r, hub.rooms.get? k = some r → hub.Unwritten r) :
    Saved { hub with rooms := hub.rooms.delete k } := by
  refine ⟨h.reads, h.called, ?_, h.ordered, ?_⟩
  · intro call write hw
    obtain ⟨room, hroom, hs, hreg, hrest⟩ := h.written call write hw
    refine ⟨room, hroom, hs, ?_, hrest⟩
    rw [OrderedMap.get?_delete, if_neg]
    · exact hreg
    · intro hk
      exact (hunwritten write.room (hk ▸ hreg)).not_room hw rfl
  · intro k' r room hk hroom
    rw [OrderedMap.get?_delete] at hk
    split at hk
    · cases hk
    · exact h.saved k' r room hk hroom

theorem create (h : Saved hub) (hone : OneRoom hub) {scope : RoomScope} {content : Text}
    (hnone : hub.rooms.get? (roomKey scope) = none) (hdisk : hub.disk.get? scope = some content) :
    Saved (hub.create scope content) := by
  have hlt : ∀ {k r}, hub.rooms.get? k = some r → r < hub.objects.length := by
    intro k r hr
    exact lt_of_keyOf (hone.registered k r hr)
  have hget : ∀ {k r}, hub.rooms.get? k = some r →
      (hub.create scope content).rooms.get? k = some r := by
    intro k r hr
    rw [CollabWebSocketHub.create, OrderedMap.get?_set, if_neg]
    · exact hr
    · intro hk
      rw [hk, hnone] at hr
      cases hr
  have hold : ∀ {r}, r < hub.objects.length →
      (hub.create scope content).objects[r]? = hub.objects[r]? := by
    intro r hr
    rw [CollabWebSocketHub.create, List.getElem?_append_left hr]
  refine ⟨h.reads, h.called, ?_, h.ordered, ?_⟩
  · intro call write hw
    obtain ⟨room, hroom, hs, hreg, hrest⟩ := h.written call write hw
    exact ⟨room, (hold (hlt hreg)).trans hroom, hs, hget hreg, hrest⟩
  · intro k r room hk hroom
    rw [CollabWebSocketHub.create, OrderedMap.get?_set] at hk
    split at hk
    · -- The new room: its first revision is what was read.
      cases hk
      rw [CollabWebSocketHub.create, List.getElem?_append_right (Nat.le_refl _), Nat.sub_self] at hroom
      cases hroom
      refine ⟨0, Nat.le_refl _, fun _ => hdisk, Nat.le_refl _, ?_⟩
      intro call write hw hwr
      obtain ⟨_, _, _, hreg, _⟩ := h.written call write hw
      exact absurd (hlt hreg) (by rw [hwr]; exact Nat.lt_irrefl _)
    · rw [hold (hlt hk)] at hroom
      exact h.saved k r room hk hroom

theorem callWrite (h : Saved hub) {r : RoomId} {room : CollabRoom} (hk : hub.rooms.get? k = some r)
    (hr : hub.objects[r]? = some room) (hone : OneRoom hub) (writer : Writer) :
    Saved (hub.callWrite writer r room) := by
  have hreg : hub.rooms.get? (roomKey room.scope) = some r := by
    obtain ⟨x, hx, hxk⟩ := keyOf_eq_some.mp (hone.registered k r hk)
    rw [hr] at hx
    cases hx
    rw [hxk]
    exact hk
  have hcases : ∀ {call write}, (hub.callWrite writer r room).writes.get? call = some write →
      (call = hub.calls ∧ write =
        ⟨writer, r, room.scope, room.document.content, room.document.revision, false⟩) ∨
      (call < hub.calls ∧ hub.writes.get? call = some write) := by
    intro call write hw
    rw [CollabWebSocketHub.callWrite, OrderedMap.get?_set] at hw
    split at hw
    · rename_i hc
      cases hw
      exact .inl ⟨hc, rfl⟩
    · exact .inr ⟨h.called call write hw, hw⟩
  have hrevision : ∀ {call write}, hub.writes.get? call = some write → write.room = r →
      write.revision ≤ room.document.revision := by
    intro call write hw hwr
    obtain ⟨x, hx, _, _, hrev, _⟩ := h.written call write hw
    rw [hwr, hr] at hx
    cases hx
    exact hrev
  refine ⟨h.reads, ?_, ?_, ?_, ?_⟩
  · intro call write hw
    rcases hcases hw with ⟨hc, _⟩ | ⟨hc, _⟩
    · rw [hc]
      exact Nat.lt_succ_self _
    · exact Nat.lt_succ_of_lt hc
  · intro call write hw
    rcases hcases hw with ⟨_, rfl⟩ | ⟨_, hw⟩
    · exact ⟨room, hr, rfl, hreg, Nat.le_refl _, fun _ => rfl⟩
    · exact h.written call write hw
  · intro call write call' write' hw hw' hlt hroom
    rcases hcases hw with ⟨hc, _⟩ | ⟨_, hw⟩ <;> rcases hcases hw' with ⟨hc', rfl⟩ | ⟨hc', hw'⟩
    · rw [hc, hc'] at hlt
      exact absurd hlt (Nat.lt_irrefl _)
    · rw [hc] at hlt
      exact absurd hlt (Nat.lt_asymm hc')
    · exact hrevision hw hroom
    · exact h.ordered call write call' write' hw hw' hlt hroom
  · intro k' i x hk' hx
    obtain ⟨onDisk, hd, hcontent, hmark, hw⟩ := h.saved k' i x hk' hx
    refine ⟨onDisk, hd, hcontent, hmark, ?_⟩
    intro call write hget hwr
    rcases hcases hget with ⟨_, rfl⟩ | ⟨_, hget⟩
    · refine ⟨(fun hl => by cases hl), fun _ => ?_⟩
      replace hx : hub.objects[i]? = some x := hx
      rw [← hwr, hr] at hx
      cases hx
      exact hd
    · exact hw call write hget hwr

theorem dropWrite (h : Saved hub) (call : CallId) :
    Saved { hub with writes := hub.writes.delete call } := by
  have hget : ∀ {call' write}, (hub.writes.delete call).get? call' = some write →
      hub.writes.get? call' = some write := by
    intro call' write hw
    rw [OrderedMap.get?_delete] at hw
    split at hw
    · cases hw
    · exact hw
  refine ⟨h.reads, fun _ _ hw => h.called _ _ (hget hw), fun _ _ hw => h.written _ _ (hget hw),
    fun _ _ _ _ hw hw' => h.ordered _ _ _ _ (hget hw) (hget hw'), ?_⟩
  intro k r room hk hr
  obtain ⟨onDisk, hd, hcontent, hmark, hw⟩ := h.saved k r room hk hr
  exact ⟨onDisk, hd, hcontent, hmark, fun call' write hget' => hw call' write (hget hget')⟩

theorem land (h : Saved hub) (hone : OneRoom hub) {call : CallId} (hl : hub.land call = some hub')
    (horder : ∀ write ∈ hub.writes.get? call, ∀ entry ∈ hub.writes.entries, entry.1 < call →
      entry.2.scope = write.scope → entry.2.landed = true) : Saved hub' := by
  unfold CollabWebSocketHub.land at hl
  split at hl
  · cases hl
  · rename_i write hw
    split at hl
    · cases hl
    · rename_i hnot
      cases hl
      rw [Bool.not_eq_true] at hnot
      obtain ⟨room, hroom, hscope, hreg, hrev, hcontent⟩ := h.written call write hw
      have hcases : ∀ {call' write'},
          (hub.writes.set call { write with landed := true }).get? call' = some write' →
          (call' = call ∧ write' = { write with landed := true }) ∨
          (call' ≠ call ∧ hub.writes.get? call' = some write') := by
        intro call' write' hw'
        rw [OrderedMap.get?_set] at hw'
        split at hw'
        · rename_i hc
          cases hw'
          exact .inl ⟨hc, rfl⟩
        · rename_i hc
          exact .inr ⟨hc, hw'⟩
      refine ⟨h.reads, ?_, ?_, ?_, ?_⟩
      · intro call' write' hw'
        rcases hcases hw' with ⟨rfl, _⟩ | ⟨_, hw'⟩
        · exact h.called call' write hw
        · exact h.called call' write' hw'
      · intro call' write' hw'
        rcases hcases hw' with ⟨_, rfl⟩ | ⟨_, hw'⟩
        · exact ⟨room, hroom, hscope, hreg, hrev, hcontent⟩
        · exact h.written call' write' hw'
      · intro c₁ w₁ c₂ w₂ hw₁ hw₂ hlt hsame
        rcases hcases hw₁ with ⟨hc₁, rfl⟩ | ⟨_, hold₁⟩ <;>
          rcases hcases hw₂ with ⟨hc₂, rfl⟩ | ⟨_, hold₂⟩
        · exact Nat.le_refl _
        · exact h.ordered call write c₂ w₂ hw hold₂ (hc₁ ▸ hlt) hsame
        · exact h.ordered c₁ w₁ call write hold₁ hw (hc₂ ▸ hlt) hsame
        · exact h.ordered c₁ w₁ c₂ w₂ hold₁ hold₂ hlt hsame
      · intro k r x hk hx
        obtain ⟨onDisk, hd, hsame, hmark, hall⟩ := h.saved k r x hk hx
        by_cases hr : write.room = r
        · subst hr
          replace hx : hub.objects[write.room]? = some x := hx
          rw [hroom] at hx
          cases hx
          have hle : onDisk ≤ write.revision := (hall call write hw rfl).2 hnot
          refine ⟨write.revision, hrev, ?_, Nat.le_trans hmark hle, ?_⟩
          · intro heq
            dsimp only
            rw [OrderedMap.get?_set, if_pos hscope, hcontent heq]
          · intro call' write' hw' hwr
            rcases hcases hw' with ⟨_, rfl⟩ | ⟨hne, hw'⟩
            · exact ⟨fun _ => Nat.le_refl _, fun _ => Nat.le_refl _⟩
            · refine ⟨fun hl => Nat.le_trans ((hall call' write' hw' hwr).1 hl) hle, fun hl => ?_⟩
              rcases Nat.lt_or_gt_of_ne hne with hlt | hgt
              · -- An earlier call of the same file has landed.
                obtain ⟨y, hy, hs', _⟩ := h.written call' write' hw'
                rw [hwr, hroom] at hy
                cases hy
                have hlanded := horder write hw (call', write')
                  (OrderedMap.get?_eq_some_iff.mp hw') hlt (hs'.symm.trans hscope)
                rw [hl] at hlanded
                cases hlanded
              · exact h.ordered call write call' write' hw hw' hgt hwr.symm
        · refine ⟨onDisk, hd, ?_, hmark, ?_⟩
          · intro heq
            dsimp only
            rw [OrderedMap.get?_set, if_neg]
            · exact hsame heq
            · intro hs
              -- Two registered rooms of one scope are one room.
              obtain ⟨y, hy, hyk⟩ := keyOf_eq_some.mp (hone.registered k r hk)
              replace hx : hub.objects[r]? = some x := hx
              rw [hx] at hy
              cases hy
              have hkey : roomKey room.scope = k := by rw [hscope, ← hs, hyk]
              rw [hkey] at hreg
              replace hk : hub.rooms.get? k = some r := hk
              rw [hreg] at hk
              exact hr (Option.some.inj hk)
          · intro call' write' hw' hwr
            rcases hcases hw' with ⟨_, rfl⟩ | ⟨_, hw'⟩
            · exact absurd hwr hr
            · exact hall call' write' hw' hwr

theorem join (h : Saved hub) {r : RoomId} (hk : hub.rooms.get? k = some r) (hone : OneRoom hub)
    (principal : User) : Saved (hub.join r principal) := by
  obtain ⟨room, hroom, _⟩ := keyOf_eq_some.mp (hone.registered k r hk)
  obtain ⟨client, room', _, _, hscope, hdoc, hsaved, _, _, hjoin⟩ :=
    join_eq principal hroom
  have hset := h.setObject hroom hscope (.inl hdoc) (.inl hsaved)
  rw [hjoin]
  exact hset.of_eq rfl rfl rfl rfl rfl rfl

theorem forget (h : Saved hub) (hone : OneRoom hub) (hf : hub.forget p = some hub')
    (hunwritten : ∀ client ∈ hub.client? p, ∀ room ∈ hub.objects[client.room]?,
      room.dirty = false → (room.leave p).size = 0 → hub.Unwritten client.room) : Saved hub' := by
  obtain ⟨client, room, hc, rfl, hroom, hub₁, room₁, rfl, hhub₁, hcases⟩ := forget_eq hf
  have h₁ : Saved hub₁ := by
    have hset : Saved (hub.setObject client.room
        ((room.leave client.participantId).touch hub.now)) :=
      h.setObject hroom rfl (.inl rfl) (.inl rfl)
    rw [hhub₁]
    exact hset.of_eq rfl rfl rfl rfl rfl rfl
  rcases hcases with ⟨_, rfl⟩ | ⟨hsize, rfl⟩
  · exact h₁
  · have hrooms : hub.rooms = hub₁.rooms := by rw [hhub₁]
    rw [hrooms]
    split
    · exact h₁.of_eq rfl rfl rfl rfl rfl rfl
    · rename_i hclean
      have hnone := hunwritten client (find?_client hone hc) room hroom
        (Bool.eq_false_iff.mpr hclean) hsize
      have hreg := hone.room_eq hc (keyOf_eq_some.mpr ⟨room, hroom, rfl⟩)
      have hdrop : Saved { hub₁ with rooms := hub₁.rooms.delete (roomKey room.scope) } := by
        apply h₁.drop
        intro r hr
        rw [← hrooms, hreg] at hr
        cases hr
        intro entry he
        rw [hhub₁] at he
        exact hnone entry he
      exact hdrop.of_eq rfl rfl rfl rfl rfl rfl

theorem handle (h : Saved hub) {change : CollabRoom → CollabRoom}
    (hchange : ∀ room, (change room).scope = room.scope ∧
      (change room).savedRevision = room.savedRevision ∧
      ((change room).document = room.document ∨
        room.document.revision < (change room).document.revision))
    (hh : hub.handle p change = some hub') : Saved hub' := by
  unfold CollabWebSocketHub.handle at hh
  split at hh
  · cases hh
  · obtain ⟨room, hroom, rfl⟩ := Option.map_eq_some_iff.mp hh
    obtain ⟨hscope, hsaved, hdoc⟩ := hchange (room.touch hub.now)
    exact h.setObject hroom hscope hdoc (.inl hsaved)

theorem save (h : Saved hub) (hone : OneRoom hub) (hs : hub.save p = some hub') : Saved hub' := by
  unfold CollabWebSocketHub.save at hs
  split at hs
  · cases hs
  · rename_i client hc
    obtain ⟨room, hroom, rfl⟩ := Option.map_eq_some_iff.mp hs
    obtain ⟨hmem, _⟩ := client?_eq_some hc
    have hreg := hone.room_eq hmem (keyOf_eq_some.mpr ⟨room, hroom, rfl⟩)
    have hset : Saved (hub.setObject client.room (room.touch hub.now)) :=
      h.setObject hroom rfl (.inl rfl) (.inl rfl)
    have hone' := hone.setObject hroom (sameSeats_touch room hub.now) (.inr rfl)
    have hobj : (hub.setObject client.room (room.touch hub.now)).objects[client.room]? =
        some (room.touch hub.now) := by
      rw [getElem?_setObject hroom, if_pos rfl]
    exact hset.callWrite hreg hobj hone' .save

/-- An upgrade in one step: it is refused, or joins the room that is registered,
or reads the file where none is. -/
theorem openFile_cases (h : Saved hub) (scope : RoomScope) (principal : User) :
    hub.openFile scope principal = hub ∨
      (∃ r, hub.rooms.get? (roomKey scope) = some r ∧
        hub.openFile scope principal = hub.join r principal) ∨
      ∃ hub₁, hub₁ = { hub with calls := hub.calls + 1 } ∧
        hub.rooms.get? (roomKey scope) = none ∧
        (hub.openFile scope principal = hub₁ ∨
          ∃ content, hub.disk.get? scope = some content ∧ hub.openFile scope principal =
            (hub₁.create scope content).join hub.objects.length principal) := by
  have hpending : ∀ hub' : CollabWebSocketHub, hub'.reads = .empty → ∀ snapshot,
      (hub'.finishUpgrade hub.calls snapshot).getD hub' = hub' := by
    intro hub' hreads snapshot
    rw [finishUpgrade, hreads]
    rfl
  unfold openFile
  dsimp only
  cases hr : hub.rooms.get? (roomKey scope) with
  | some r =>
    have htry : hub.tryUpgrade scope principal = hub ∨
        hub.tryUpgrade scope principal = hub.join r principal := by
      unfold tryUpgrade
      rw [hr]
      dsimp only
      split
      · exact .inl rfl
      · exact .inr rfl
    rcases htry with htry | htry
    · rw [htry, hpending hub h.reads]
      exact .inl rfl
    · have hreads : (hub.join r principal).reads = .empty := by
        unfold CollabWebSocketHub.join
        split <;> exact h.reads
      rw [htry, hpending _ hreads]
      exact .inr (.inl ⟨r, rfl, rfl⟩)
  | none =>
    unfold tryUpgrade
    rw [hr]
    dsimp only
    split
    · rw [hpending hub h.reads]
      exact .inl rfl
    · -- The read that was called is the only one, and it is answered.
      refine .inr (.inr ⟨_, rfl, rfl, ?_⟩)
      have hget : (hub.reads.set hub.calls ⟨scope, principal⟩).get? hub.calls =
          some ⟨scope, principal⟩ := by
        rw [OrderedMap.get?_set, if_pos rfl]
      have hdelete : (hub.reads.set hub.calls ⟨scope, principal⟩).delete hub.calls = hub.reads := by
        rw [h.reads]
        simp [OrderedMap.empty, OrderedMap.set, OrderedMap.setEntries, OrderedMap.delete]
      rw [finishUpgrade, hget]
      dsimp only
      rw [hdelete, snapshot]
      cases hd : hub.disk.get? scope with
      | none => exact .inl rfl
      | some content => exact .inr ⟨content, rfl, rfl⟩

theorem openFile (h : Saved hub) (hone : OneRoom hub) (scope : RoomScope) (principal : User) :
    Saved (hub.openFile scope principal) ∧ OneRoom (hub.openFile scope principal) := by
  rcases h.openFile_cases scope principal with heq | ⟨r, hr, heq⟩ | ⟨hub₁, rfl, hnone, hcase⟩
  · rw [heq]
    exact ⟨h, hone⟩
  · rw [heq]
    exact ⟨h.join hr hone principal, hone.join hr principal⟩
  · have h₁ : Saved { hub with calls := hub.calls + 1 } :=
      ⟨h.reads, fun _ _ hw => Nat.lt_succ_of_lt (h.called _ _ hw), h.written, h.ordered, h.saved⟩
    have hone₁ : OneRoom { hub with calls := hub.calls + 1 } :=
      hone.of_eq rfl rfl rfl rfl rfl (Int.le_refl _) rfl fun _ write hw hf => ⟨write, hw, hf, rfl⟩
    rcases hcase with heq | ⟨content, hdisk, heq⟩
    · rw [heq]
      exact ⟨h₁, hone₁⟩
    · have hreg : (hub.rooms.set (roomKey scope) hub.objects.length).get? (roomKey scope) =
          some hub.objects.length := by
        rw [OrderedMap.get?_set, if_pos rfl]
      have h₂ := h₁.create hone₁ hnone hdisk
      have hone₂ := hone₁.create content hnone
      rw [heq]
      exact ⟨h₂.join hreg hone₂ principal, hone₂.join hreg principal⟩

/-- The sweep passes a clean room only while nobody writes it, and calls its write
of a room that is still registered. -/
theorem flushNext (h : Saved hub) (hone : OneRoom hub) (hf : hub.flushNext = some hub')
    (hunwritten : ∀ sweep ∈ hub.sweep, ∀ r ∈ sweep.remaining.head?, ∀ room ∈ hub.objects[r]?,
      room.size = 0 → room.lastActivityAt ≤ sweep.deadline → room.dirty = false →
      hub.Unwritten r) : Saved hub' := by
  obtain ⟨sweep, hs, _, ⟨_, rfl⟩ | ⟨r, remaining, room, hrem, hroom, hcase⟩⟩ := flushNext_eq hf
  · exact h.of_eq rfl rfl rfl rfl rfl rfl
  · obtain ⟨_, _, hm⟩ := hone.swept sweep hs
    obtain ⟨x, hx, hor⟩ := hm r (hrem ▸ List.mem_cons_self)
    rw [hroom] at hx
    cases hx
    rcases hcase with rfl | ⟨hsize, hidle, hcase⟩
    · exact h.of_eq rfl rfl rfl rfl rfl rfl
    · have hreg : hub.rooms.get? (roomKey room.scope) = some r := by
        rcases hor with hor | hor
        · exact hor
        · omega
      rcases hcase with ⟨_, rfl⟩ | ⟨hclean, rfl⟩
      · exact (h.callWrite hreg hroom hone .flush).of_eq rfl rfl rfl rfl rfl rfl
      · have hnone := hunwritten sweep hs r (by rw [hrem]; rfl) room hroom hsize hidle hclean
        have hdrop : Saved { hub with rooms := hub.rooms.delete (roomKey room.scope) } := by
          apply h.drop
          intro r' hr'
          rw [hreg] at hr'
          cases hr'
          exact hnone
        exact hdrop.of_eq rfl rfl rfl rfl rfl rfl

/-- A write completes: what it marks saved has landed. A flush drops the room
only when its document is still at the revision that was written, and no other
write of it is in flight. -/
theorem finishWrite (h : Saved hub) {call : CallId} {ok : Bool}
    (hf : hub.finishWrite call ok = some hub')
    (hsettled : ok = true → ∀ write ∈ hub.writes.get? call, write.writer = .flush →
      ∀ room ∈ hub.objects[write.room]?, room.document.revision = write.revision ∧
        ∀ entry ∈ hub.writes.entries, entry.2.room = write.room → entry.1 = call) : Saved hub' := by
  obtain ⟨write, room, hw, hlanded, hroom, hub₁, hhub₁, hcase⟩ := finishWrite_eq hf
  have h₁ : Saved hub₁ := by
    rw [hhub₁]
    exact h.dropWrite call
  have hroom₁ : hub₁.objects[write.room]? = some room := by
    rw [hhub₁]
    exact hroom
  -- Marking comes before the write is forgotten: it has landed.
  have hmark : ∀ revision, revision = write.revision → ok = true →
      Saved (hub₁.setObject write.room (room.markSaved revision)) := by
    intro revision hrev hok
    have hset : Saved (hub.setObject write.room (room.markSaved revision)) :=
      h.setObject hroom rfl (.inl rfl) (.inr ⟨call, write, hw, rfl, hlanded hok, hrev⟩)
    rw [hhub₁]
    exact (hset.dropWrite call).of_eq rfl rfl rfl rfl rfl rfl
  rcases hcase with ⟨_, hok, rfl⟩ | ⟨_, _, rfl⟩ | ⟨hflush, hok, rfl⟩ | ⟨_, _, rfl⟩
  · exact hmark write.revision rfl hok
  · exact h₁
  · obtain ⟨hrev, honly⟩ := hsettled hok write hw hflush room hroom
    have hset := hmark room.document.revision hrev hok
    obtain ⟨x, hx, _, hreg, _⟩ := h.written call write hw
    rw [hroom] at hx
    cases hx
    have hrooms : hub.rooms = hub₁.rooms := by rw [hhub₁]
    rw [hrooms]
    have hdrop : Saved
        { hub₁.setObject write.room (room.markSaved room.document.revision) with
          rooms := hub₁.rooms.delete (roomKey room.scope) } := by
      apply hset.drop
      intro r hr
      replace hr : hub₁.rooms.get? (roomKey room.scope) = some r := hr
      rw [← hrooms, hreg] at hr
      cases hr
      intro entry he hroom'
      replace he : entry ∈ hub₁.writes.entries := he
      rw [hhub₁] at he
      obtain ⟨he, hne⟩ := List.mem_filter.mp he
      rw [honly entry he hroom'] at hne
      simp at hne
    exact hdrop.of_eq rfl rfl rfl rfl rfl rfl
  · have hset : Saved (hub₁.setObject write.room (room.touch hub.now)) :=
      h₁.setObject hroom₁ rfl (.inl rfl) (.inl rfl)
    exact hset.of_eq rfl rfl rfl rfl rfl rfl

theorem clean (h : Saved hub) {r : RoomId} {room : CollabRoom} (hk : hub.rooms.get? k = some r)
    (hr : hub.objects[r]? = some room) (hclean : room.dirty = false) :
    hub.disk.get? room.scope = some room.document.content := by
  obtain ⟨onDisk, hd, hcontent, hmark, _⟩ := h.saved k r room hk hr
  have hrev : room.document.revision = room.savedRevision := by
    simpa [CollabRoom.dirty] using hclean
  exact hcontent (by omega)

end Saved

/-! ## Runs -/

/-- What the runs below are asked of: the writes of a file land in the order they
were called; a clean room is dropped only while no write of it is in flight; and
a flush completes only while the document is at the revision it wrote, no other
write of the room is in flight and nobody sits in the room registered under its
key. -/
def Settled (hub : CollabWebSocketHub) : HubEvent → Prop
  | .land call => ∀ write ∈ hub.writes.get? call, ∀ entry ∈ hub.writes.entries,
      entry.1 < call → entry.2.scope = write.scope → entry.2.landed = true
  | .disconnect p => ∀ client ∈ hub.client? p, ∀ room ∈ hub.objects[client.room]?,
      room.dirty = false → (room.leave p).size = 0 → hub.Unwritten client.room
  | .flush => ∀ sweep ∈ hub.sweep, ∀ r ∈ sweep.remaining.head?, ∀ room ∈ hub.objects[r]?,
      room.size = 0 → room.lastActivityAt ≤ sweep.deadline → room.dirty = false →
      hub.Unwritten r
  | .written call ok => ok = true → ∀ write ∈ hub.writes.get? call, write.writer = .flush →
      ∀ room ∈ hub.objects[write.room]?, (room.document.revision = write.revision ∧
        ∀ entry ∈ hub.writes.entries, entry.2.room = write.room → entry.1 = call) ∧
        hub.Unoccupied (roomKey room.scope)
  | _ => True

instance (hub : CollabWebSocketHub) (r : RoomId) : Decidable (hub.Unwritten r) :=
  inferInstanceAs (Decidable (∀ entry ∈ hub.writes.entries, entry.2.room ≠ r))

instance (hub : CollabWebSocketHub) : DecidablePred hub.Settled
  | .land call => inferInstanceAs (Decidable (∀ write ∈ hub.writes.get? call,
      ∀ entry ∈ hub.writes.entries,
      entry.1 < call → entry.2.scope = write.scope → entry.2.landed = true))
  | .disconnect p => inferInstanceAs (Decidable (∀ client ∈ hub.client? p,
      ∀ room ∈ hub.objects[client.room]?,
      room.dirty = false → (room.leave p).size = 0 → hub.Unwritten client.room))
  | .flush => inferInstanceAs (Decidable (∀ sweep ∈ hub.sweep, ∀ r ∈ sweep.remaining.head?,
      ∀ room ∈ hub.objects[r]?, room.size = 0 → room.lastActivityAt ≤ sweep.deadline →
      room.dirty = false → hub.Unwritten r))
  | .written call ok => inferInstanceAs (Decidable (ok = true →
      ∀ write ∈ hub.writes.get? call, write.writer = .flush →
      ∀ room ∈ hub.objects[write.room]?, (room.document.revision = write.revision ∧
        ∀ entry ∈ hub.writes.entries, entry.2.room = write.room → entry.1 = call) ∧
        hub.Unoccupied (roomKey room.scope)))
  | .tick _ | .upgrade _ _ | .read _ _ | .op _ _ _ _ | .selection _ _ _ | .resync _ | .save _
  | .sweep => isTrue trivial

end CollabWebSocketHub

theorem receive_revision {document document' : CollabDocument} {revision : Int}
    {operation : TextOperation} {applied : AppliedOperation}
    (h : document.receive revision operation = .ok (applied, document')) :
    document'.revision = document.revision + 1 := by
  unfold CollabDocument.receive at h
  split at h
  · cases h
  · split at h
    · cases h
    · split at h
      · cases h
      · obtain ⟨rebased, _, h⟩ := except_bind_ok h
        obtain ⟨text, _, h⟩ := except_bind_ok h
        cases h
        exact CollabDocument.append_revision document text rebased

theorem handleOp_document (room : CollabRoom) (p : ParticipantId) (revision : Int)
    (operation : TextOperation) (selection : Option SelectionRange) :
    (handleOp room p revision operation selection).savedRevision = room.savedRevision ∧
      ((handleOp room p revision operation selection).document = room.document ∨
        room.document.revision <
          (handleOp room p revision operation selection).document.revision) := by
  unfold handleOp
  dsimp only
  split
  · exact ⟨rfl, .inl rfl⟩
  · split
    · rename_i h
      obtain ⟨hd, _, hs, _⟩ := receive_ok h
      refine ⟨hs, .inr ?_⟩
      rw [receive_revision hd]
      exact Nat.lt_succ_self _
    · exact ⟨rfl, .inl rfl⟩

theorem handleSelection_document (room : CollabRoom) (p : ParticipantId) (revision : Int)
    (selection : SelectionRange) :
    (handleSelection room p revision selection).savedRevision = room.savedRevision ∧
      (handleSelection room p revision selection).document = room.document := by
  unfold handleSelection
  split
  · rename_i h
    obtain ⟨_, hd, hs, _⟩ := setSelection_ok h
    exact ⟨hs, hd⟩
  · exact ⟨rfl, rfl⟩

/-- **A settled step keeps both invariants.** -/
theorem stepAtomic_saved {hub hub' : CollabWebSocketHub} {e : HubEvent}
    (h : Saved hub ∧ OneRoom hub) (hok : Settled hub e) (hs : stepAtomic hub e = some hub') :
    Saved hub' ∧ OneRoom hub' := by
  obtain ⟨h, hone⟩ := h
  cases e with
  | upgrade scope principal =>
    cases hs
    exact h.openFile hone scope principal
  | read call snapshot => cases hs
  | written call ok =>
    refine ⟨h.finishWrite hs ?_, hone.finishWrite hs ?_⟩
    · intro hok' write hw hflush room hroom
      exact (hok hok' write hw hflush room hroom).1
    · intro hok' write hw hflush room hroom
      exact (hok hok' write hw hflush room hroom).2
  | tick elapsed =>
    cases hs
    refine ⟨h.of_eq rfl rfl rfl rfl rfl rfl, ?_⟩
    refine hone.of_eq rfl rfl rfl rfl rfl ?_ rfl fun _ write hw hf => ⟨write, hw, hf, rfl⟩
    dsimp only
    omega
  | op p revision operation selection =>
    replace hs : hub.handle p (fun room => handleOp room p revision operation selection) =
      some hub' := hs
    have hseats := fun room => handleOp_seats room p revision operation selection
    refine ⟨h.handle (fun room => ?_) hs, hone.handle hseats hs⟩
    exact ⟨(hseats room).1.scope, handleOp_document room p revision operation selection⟩
  | selection p revision selection =>
    replace hs : hub.handle p (fun room => handleSelection room p revision selection) =
      some hub' := hs
    have hseats := fun room => handleSelection_seats room p revision selection
    refine ⟨h.handle (fun room => ?_) hs, hone.handle hseats hs⟩
    obtain ⟨hsaved, hdoc⟩ := handleSelection_document room p revision selection
    exact ⟨(hseats room).1.scope, hsaved, .inl hdoc⟩
  | resync p =>
    replace hs : hub.handle p id = some hub' := hs
    exact ⟨h.handle (fun _ => ⟨rfl, rfl, .inl rfl⟩) hs, hone.handle (fun _ => ⟨.rfl, rfl⟩) hs⟩
  | save p => exact ⟨h.save hone hs, hone.save hs⟩
  | land call => exact ⟨h.land hone hs hok, hone.land hs⟩
  | disconnect p => exact ⟨h.forget hone hs hok, hone.forget hs⟩
  | sweep =>
    refine ⟨?_, hone.startSweep hs⟩
    replace hs : hub.startSweep = some hub' := hs
    unfold startSweep at hs
    split at hs
    · cases hs
    · cases hs
      exact h.of_eq rfl rfl rfl rfl rfl rfl
  | flush => exact ⟨h.flushNext hone hs hok, hone.flushNext hs⟩

/-! ## A clean room is a saved room -/

/-- Every room in use that is clean, and that nobody is writing, is on disk. -/
def CleanRoomsSaved (hub : CollabWebSocketHub) : Prop :=
  ∀ r room, hub.objects[r]? = some room →
    (hub.rooms.get? (roomKey room.scope) = some r ∨ 0 < room.size) →
    room.dirty = false → hub.Unwritten r →
    hub.disk.get? room.scope = some room.document.content

/-- A step that drops a room drops a clean one, that nobody is writing and that is
on disk. -/
def DropsSavedRooms (hub hub' : CollabWebSocketHub) : Prop :=
  ∀ k r, hub.rooms.get? k = some r → hub'.rooms.get? k ≠ some r →
    ∃ room, hub'.objects[r]? = some room ∧ room.dirty = false ∧ hub'.Unwritten r ∧
      hub'.disk.get? room.scope = some room.document.content

/-- A write that completes marks the revision whose text it wrote. -/
def MarksWrittenText (hub : CollabWebSocketHub) (e : HubEvent) (hub' : CollabWebSocketHub) :
    Prop :=
  ∀ call, e = .written call true → ∀ write, hub.writes.get? call = some write →
    ∀ room', hub'.objects[write.room]? = some room' → room'.savedRevision = write.revision

theorem cleanRoomsSaved {hub : CollabWebSocketHub} (h : Saved hub) (hone : OneRoom hub) :
    CleanRoomsSaved hub := by
  intro r room hroom huse hclean _
  rcases huse with hreg | hsize
  · exact h.clean hreg hroom hclean
  · -- Somebody sits in it, so it is the one registered.
    by_cases hseat : ∃ c ∈ hub.clients, c.room = r
    · obtain ⟨c, hc, rfl⟩ := hseat
      exact h.clean (hone.room_eq hc (keyOf_eq_some.mpr ⟨room, hroom, rfl⟩)) hroom hclean
    · refine absurd ?_ (Nat.pos_iff_ne_zero.mp hsize)
      apply size_eq_zero_iff.mpr
      intro p
      apply Bool.eq_false_iff.mpr
      intro hp
      obtain ⟨c, hc, hcr, _⟩ := (hone.seated r room hroom p).mp hp
      exact hseat ⟨c, hc, hcr⟩

/-! ### What leaves the registry alone -/

theorem handle_rooms {hub hub' : CollabWebSocketHub} {p : ParticipantId}
    {change : CollabRoom → CollabRoom} (h : hub.handle p change = some hub') :
    hub'.rooms = hub.rooms := by
  unfold CollabWebSocketHub.handle at h
  split at h
  · cases h
  · obtain ⟨room, _, rfl⟩ := Option.map_eq_some_iff.mp h
    rfl

theorem save_rooms {hub hub' : CollabWebSocketHub} {p : ParticipantId}
    (h : hub.save p = some hub') : hub'.rooms = hub.rooms := by
  unfold CollabWebSocketHub.save at h
  split at h
  · cases h
  · obtain ⟨room, _, rfl⟩ := Option.map_eq_some_iff.mp h
    rfl

theorem land_rooms {hub hub' : CollabWebSocketHub} {call : CallId}
    (h : hub.land call = some hub') : hub'.rooms = hub.rooms := by
  unfold CollabWebSocketHub.land at h
  split at h
  · cases h
  · split at h
    · cases h
    · cases h
      rfl

theorem startSweep_rooms {hub hub' : CollabWebSocketHub} (h : hub.startSweep = some hub') :
    hub'.rooms = hub.rooms := by
  unfold CollabWebSocketHub.startSweep at h
  split at h
  · cases h
  · cases h
    rfl

theorem join_rooms (hub : CollabWebSocketHub) (r : RoomId) (principal : User) :
    (hub.join r principal).rooms = hub.rooms := by
  unfold CollabWebSocketHub.join
  split <;> rfl

theorem openFile_rooms {hub : CollabWebSocketHub} (h : Saved hub) (scope : RoomScope)
    (principal : User) {k : String} {r : RoomId} (hk : hub.rooms.get? k = some r) :
    (hub.openFile scope principal).rooms.get? k = some r := by
  rcases h.openFile_cases scope principal with heq | ⟨r', _, heq⟩ | ⟨hub₁, rfl, hnone, hcase⟩
  · rw [heq]
    exact hk
  · rw [heq, join_rooms]
    exact hk
  · rcases hcase with heq | ⟨content, _, heq⟩
    · rw [heq]
      exact hk
    · rw [heq, join_rooms, create, OrderedMap.get?_set, if_neg]
      · exact hk
      · intro hkey
        rw [hkey, hnone] at hk
        cases hk

theorem get?_of_dropped {rooms : OrderedMap String RoomId} {k key : String} {r : RoomId}
    (hk : rooms.get? k = some r) (hne : (rooms.delete key).get? k ≠ some r) : k = key := by
  by_contra hkey
  rw [OrderedMap.get?_delete, if_neg hkey] at hne
  exact hne hk

/-- **A settled step drops only what is saved.** -/
theorem dropsSavedRooms {hub hub' : CollabWebSocketHub} {e : HubEvent} (h : Saved hub)
    (hone : OneRoom hub) (hok : Settled hub e) (hs : stepAtomic hub e = some hub') :
    DropsSavedRooms hub hub' := by
  intro k r hk hne
  have hkept : hub'.rooms ≠ hub.rooms := by
    intro heq
    rw [heq] at hne
    exact hne hk
  cases e with
  | tick elapsed =>
    cases hs
    exact absurd rfl hkept
  | upgrade scope principal =>
    cases hs
    exact absurd (openFile_rooms h scope principal hk) hne
  | read call snapshot => cases hs
  | op p revision operation selection =>
    replace hs : hub.handle p (fun room => handleOp room p revision operation selection) =
      some hub' := hs
    exact absurd (handle_rooms hs) hkept
  | selection p revision selection =>
    replace hs : hub.handle p (fun room => handleSelection room p revision selection) =
      some hub' := hs
    exact absurd (handle_rooms hs) hkept
  | resync p => exact absurd (handle_rooms hs) hkept
  | save p => exact absurd (save_rooms hs) hkept
  | land call => exact absurd (land_rooms hs) hkept
  | sweep => exact absurd (startSweep_rooms hs) hkept
  | disconnect p =>
    obtain ⟨client, room, hc, rfl, hroom, hub₁, room₁, rfl, rfl, ⟨_, rfl⟩ | ⟨hsize, rfl⟩⟩ :=
      forget_eq hs
    · exact absurd rfl hkept
    · dsimp only at hkept hne
      split at hne
      · exact absurd hk hne
      · rename_i hdirty
        have hclean : room.dirty = false := Bool.eq_false_iff.mpr hdirty
        have hreg := hone.room_eq hc (keyOf_eq_some.mpr ⟨room, hroom, rfl⟩)
        have hkey := get?_of_dropped hk hne
        rw [hkey, hreg] at hk
        cases hk
        have hsaved := h.clean hreg hroom hclean
        refine ⟨(room.leave client.participantId).touch hub.now, ?_, hclean, ?_, hsaved⟩
        · exact (getElem?_setObject hroom _ _).trans (if_pos rfl)
        · exact hok client (find?_client hone hc) room hroom hclean hsize
  | flush =>
    obtain ⟨sweep, hsw, _, ⟨_, rfl⟩ | ⟨i, remaining, room, hrem, hroom, hcase⟩⟩ := flushNext_eq hs
    · exact absurd rfl hkept
    · rcases hcase with rfl | ⟨hsize, hidle, ⟨_, rfl⟩ | ⟨hclean, rfl⟩⟩
      · exact absurd rfl hkept
      · exact absurd rfl hkept
      · have hkey := get?_of_dropped hk hne
        have hreg : hub.rooms.get? (roomKey room.scope) = some i := by
          obtain ⟨x, hx, hor⟩ := (hone.swept sweep hsw).2.2 i (hrem ▸ List.mem_cons_self)
          rw [hroom] at hx
          cases hx
          rcases hor with hor | hor
          · exact hor
          · omega
        rw [hkey, hreg] at hk
        cases hk
        have hnone := hok sweep hsw r (by rw [hrem]; rfl) room hroom hsize hidle hclean
        exact ⟨room, hroom, hclean, hnone, h.clean hreg hroom hclean⟩
  | written call ok =>
    obtain ⟨write, room, hw, hlanded, hroom, hub₁, rfl, hcase⟩ := finishWrite_eq hs
    rcases hcase with ⟨_, _, rfl⟩ | ⟨_, _, rfl⟩ | ⟨hflush, rfl, rfl⟩ | ⟨_, _, rfl⟩
    · exact absurd rfl hkept
    · exact absurd rfl hkept
    · obtain ⟨⟨hrev, honly⟩, _⟩ := hok rfl write hw hflush room hroom
      obtain ⟨x, hx, _, hreg, _⟩ := h.written call write hw
      rw [hroom] at hx
      cases hx
      have hkey := get?_of_dropped hk hne
      rw [hkey, hreg] at hk
      cases hk
      refine ⟨room.markSaved room.document.revision, ?_, ?_, ?_, ?_⟩
      · exact (getElem?_setObject hroom _ _).trans (if_pos rfl)
      · simp [CollabRoom.dirty, CollabRoom.markSaved]
      · intro entry he hroom'
        obtain ⟨he, hne⟩ := List.mem_filter.mp he
        rw [honly entry he hroom'] at hne
        simp at hne
      · obtain ⟨onDisk, hd, hcontent, _, hall⟩ := h.saved _ _ room hreg hroom
        have hle := (hall call write hw rfl).1 (hlanded rfl)
        exact hcontent (by omega)
    · exact absurd rfl hkept

/-- **What a settled completion marks saved is what was written.** -/
theorem marksWrittenText {hub hub' : CollabWebSocketHub} {e : HubEvent}
    (hok : Settled hub e) (hs : stepAtomic hub e = some hub') : MarksWrittenText hub e hub' := by
  rintro call rfl write hw room' hroom'
  obtain ⟨write', room, hw', _, hroom, hub₁, rfl, hcase⟩ := finishWrite_eq hs
  rw [hw] at hw'
  cases hw'
  have hset : ∀ x, (hub.setObject write.room x).objects[write.room]? = some x := fun x =>
    (getElem?_setObject hroom x write.room).trans (if_pos rfl)
  rcases hcase with ⟨_, _, rfl⟩ | ⟨_, hfalse, _⟩ | ⟨hflush, _, rfl⟩ | ⟨_, hfalse, _⟩
  · replace hroom' := (hset _).symm.trans hroom'
    cases hroom'
    rfl
  · cases hfalse
  · replace hroom' := (hset _).symm.trans hroom'
    cases hroom'
    exact (hok rfl write hw hflush room hroom).1.1
  · cases hfalse

/-- **A clean room is a saved room.** In every run of the hub whose steps are settled,
a room in use that is clean and that nobody is writing is on disk; a further
settled step drops only such a room, and a completed write marks saved the
revision whose text it wrote. -/
theorem clean_room_is_saved {idleFlushMs : Nat} (idle_pos : 1 ≤ idleFlushMs) (start : Int)
    (disk : OrderedMap RoomScope Text) {events : List HubEvent} {hub : CollabWebSocketHub}
    (hrun : run stepAtomic (.new idleFlushMs idle_pos start disk) events = some hub)
    (hok : Throughout stepAtomic Settled (.new idleFlushMs idle_pos start disk) events) :
    CleanRoomsSaved hub ∧ ∀ e hub', Settled hub e → stepAtomic hub e = some hub' →
      DropsSavedRooms hub hub' ∧ MarksWrittenText hub e hub' := by
  obtain ⟨h, hone⟩ : Saved hub ∧ OneRoom hub :=
    run_invariant (fun _ _ _ h hok hs => stepAtomic_saved h hok hs)
      ⟨Saved.new idleFlushMs idle_pos start disk, OneRoom.new idleFlushMs idle_pos start disk⟩
      hok hrun
  refine ⟨cleanRoomsSaved h hone, ?_⟩
  intro e hub' hset hs
  exact ⟨dropsSavedRooms h hone hset hs, marksWrittenText hset hs⟩

/-- An operation that adds a character to the end. -/
def typed (length : Nat) : TextOperation :=
  ⟨[.number length, .string [33]], length, length + 1⟩

def editAndSave : List HubEvent :=
  [.upgrade notes ada, .op 0 0 (typed 2) none, .save 0, .land 1, .written 1 true, .disconnect 0]

/-- An edited file is left for so long that it is flushed; while it is written
somebody comes back and edits it. -/
def editWhileFlushed : List HubEvent :=
  [.upgrade notes ada, .op 0 0 (typed 2) none, .disconnect 0, .tick 300000, .sweep, .flush,
    .upgrade notes ada, .op 1 1 (typed 3) none, .land 1, .written 1 true]

def notesDisk : OrderedMap RoomScope Text := OrderedMap.empty.set notes notesFile.content

theorem clean_room_is_saved_editAndSave :
    ∃ hub, run stepAtomic (.new 300000 (by decide) 0 notesDisk) editAndSave = some hub ∧
      hub.disk.get? notes = some [104, 105, 33] ∧ CleanRoomsSaved hub := by
  have hsome : (run stepAtomic (.new 300000 (by decide) 0 notesDisk) editAndSave).map
      (fun hub => hub.disk.get? notes) = some (some [104, 105, 33]) := by decide
  obtain ⟨hub, hrun, hdisk⟩ := Option.map_eq_some_iff.mp hsome
  refine ⟨hub, hrun, hdisk, ?_⟩
  exact (clean_room_is_saved (by decide) 0 notesDisk hrun (by decide)).1

/-- The edit made during the flush is marked saved, and is not on disk. -/
theorem clean_room_is_not_saved :
    ∃ hub, run stepAtomic (.new 300000 (by decide) 0 notesDisk) editWhileFlushed = some hub ∧
      ¬CleanRoomsSaved hub := by
  have hsome : (run stepAtomic (.new 300000 (by decide) 0 notesDisk) editWhileFlushed).map
      (fun hub => (hub.objects.map fun room => (room.scope, room.document.content),
        hub.objects.map fun room => (room.dirty, room.size),
        hub.writes.entries.length, hub.disk.get? notes)) =
      some ([(notes, [104, 105, 33, 33])], [(false, 1)], 0, some [104, 105, 33]) := by
    decide
  obtain ⟨hub, hrun, hstate⟩ := Option.map_eq_some_iff.mp hsome
  refine ⟨hub, hrun, ?_⟩
  intro hclean
  simp only [Prod.mk.injEq] at hstate
  obtain ⟨hobjects, hseats, hwrites, hdisk⟩ := hstate
  obtain ⟨room, rest, hroom, hcontent, _⟩ := List.map_eq_cons_iff.mp hobjects
  rw [hroom, List.map_cons, List.cons.injEq] at hseats
  obtain ⟨hscope, htext⟩ := Prod.mk.inj hcontent
  obtain ⟨hdirty, hsize⟩ := Prod.mk.inj hseats.1
  have hnone : hub.Unwritten 0 := by
    intro entry he
    rw [List.length_eq_zero_iff.mp hwrites] at he
    cases he
  have hsaved := hclean 0 room (by rw [hroom, List.getElem?_cons_zero])
    (.inr (by rw [hsize]; decide)) hdirty hnone
  rw [hscope, hdisk, htext] at hsaved
  exact absurd hsaved (by decide)

end AgenticGit.Gateway
