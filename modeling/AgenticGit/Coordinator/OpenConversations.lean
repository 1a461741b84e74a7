import Mathlib.Data.List.Sort
import AgenticGit.Lib.Runs
import AgenticGit.Lib.Tokens

/- The conversations whose last turn landed and whose next has not begun:
   `ConversationRegistry`, and the turns that take from it and retain in it
   (`coordinator.ts`).

   Each stretch of a call between two `await`s is one event. A promise may settle at any
   later event, and `cancel` and `destroyWorkspace` may fail.

   Correspondence (TypeScript ↔ Lean):
     the `Map`                       ↔ `slots`: a deleted entry leaves its slot empty, a new
       one comes last, and an iterator is a position among them
     a session, a directory          ↔ its number, given out as it is made
     what `cancel` was called for, and what `destroyWorkspace` was ↔ `cancelled`, `destroyed`
     the awaits of the registry, and a turn between `take` and `retain` ↔ `Phase`
     a turn that fails               ↔ one that never retains
   `ends`, `seen` and the two lists `retained…` say what happened; nothing reads them.

   What is proved:
     1. `kept_step` — every step at which a turn may retain keeps the invariant `Kept`, which
        says for sessions and for directories that they are `Tracked`, and the cap.
     2. `conversations_owned_iff` — **every conversation is owned once and none is lost
        exactly when no turn retains over one that is held, or after an ending.** -/
namespace AgenticGit.Coordinator.OpenConversations
open AgenticGit.Runs AgenticGit.Tokens

/-! ## The registry -/

structure OpenConversation where
  session : Option Nat
  /-- The workspace. -/
  directory : Nat
  lastLandedAt : Int
  /-- How many endings there had been when the turn that retained it began. -/
  seen : Nat
  deriving DecidableEq, Repr

inductive Phase where
  | outside
  /-- A turn, with the conversation it took, if it found one. -/
  | running (id : String) (resumed : Option OpenConversation) (seen : Nat)
  /-- `retain`, where `enforceSessionCap` awaits a session. -/
  | capping
  /-- `closeIdleSessions`, where it awaits a session; its iterator stands at `next`. -/
  | sweeping (now : Int) (next : Nat)
  /-- `endConversation`, where it awaits the session; `endAllConversations` has `rest` left. -/
  | ending (id : String) (held : OpenConversation) (rest : List String)
  /-- `endConversation`, where it awaits the directory. -/
  | destroying (rest : List String)
  /-- `endConversation` has returned. -/
  | ended (rest : List String)
  deriving DecidableEq, Repr

/-- The conversation that is a caller's own, under its id. -/
def Phase.holding : Phase → Option (String × OpenConversation)
  | .running id (some held) _ => some (id, held)
  | .ending id held _ => some (id, held)
  | _ => none

structure ConversationRegistryOptions where
  sessionIdleMs : Int
  maxSessions : Nat

structure Registry where
  slots : List (Option (String × OpenConversation)) := []
  callers : Nat → Phase := fun _ => .outside
  sessions : Nat := 0
  directories : Nat := 0
  cancelled : List (String × Nat) := []
  destroyed : List (String × Nat) := []
  retainedSessions : List (String × Nat) := []
  retainedDirectories : List (String × Nat) := []
  /-- The ids `endConversation` was called with. -/
  ends : List String := []

namespace Registry

def put (s : Registry) (i : Nat) (phase : Phase) : Registry :=
  { s with callers := Function.update s.callers i phase }

def held (s : Registry) (k : Nat) : Option (String × OpenConversation) := s.slots[k]?.join

def find (s : Registry) (id : String) : Option Nat :=
  s.slots.findIdx? fun slot => slot.any fun held => held.1 = id

/-- `this.conversations.delete(..)`. -/
def delete (s : Registry) (k : Nat) : Registry := { s with slots := s.slots.set k none }

/-- `this.conversations.set(..)`. -/
def set (s : Registry) (id : String) (conversation : OpenConversation) : Registry :=
  match s.find id with
  | some k => { s with slots := s.slots.set k (some (id, conversation)) }
  | none => { s with slots := s.slots ++ [some (id, conversation)] }

/-- `adapter.cancel(..)`, if the conversation has a session. -/
def cancel (s : Registry) (id : String) (conversation : OpenConversation) : Registry :=
  { s with cancelled := (conversation.session.map fun session => (id, session)).toList ++
      s.cancelled }

/-- Closes and forgets the session of the conversation in a slot, keeping the rest. -/
def closeSession (s : Registry) (k : Nat) : Registry :=
  match s.held k with
  | none => s
  | some (id, conversation) =>
    { s.cancel id conversation with
      slots := s.slots.set k (some (id, { conversation with session := none })) }

def live (s : Registry) : List (Nat × OpenConversation) :=
  s.slots.zipIdx.filterMap fun slot => slot.1.bind fun held =>
    if held.2.session.isSome then some (slot.2, held.2) else none

end Registry

/-! ## The calls -/

section

variable (options : ConversationRegistryOptions)

/-- Holds the number of live conversation sessions at the cap, up to the next `await`. -/
def enforceSessionCap (s : Registry) (i : Nat) : Registry :=
  let live := s.live.insertionSort fun a b => a.2.lastLandedAt ≤ b.2.lastLandedAt
  match live.head? with
  | none => s.put i .outside
  | some oldest =>
    if live.length ≤ options.maxSessions then s.put i .outside
    else (s.closeSession oldest.1).put i .capping

/-- Closes conversation sessions that have sat idle past the deadline. -/
def closeIdleSessions (s : Registry) (i : Nat) (now : Int) (next : Nat) : Registry :=
  match s.live.find? fun entry =>
      next ≤ entry.1 && options.sessionIdleMs ≤ now - entry.2.lastLandedAt with
  | none => s.put i .outside
  | some entry => (s.closeSession entry.1).put i (.sweeping now (entry.1 + 1))

/-- Ends a conversation entirely, up to the first `await`. -/
def endConversation (s : Registry) (i : Nat) (id : String) (rest : List String) : Registry :=
  let s := { s with ends := s.ends ++ [id] }
  match s.find id with
  | none => s.put i (.ended rest)
  | some k =>
    match s.held k with
    | none => s.put i (.ended rest)
    | some (_, held) =>
      ((s.delete k).cancel id held).put i (.ending id { held with session := none } rest)

/-- The next id of `endAllConversations`, if one is left. -/
def endNext (s : Registry) (i : Nat) : List String → Registry
  | [] => s.put i .outside
  | id :: rest => endConversation s i id rest

def takeConversation (s : Registry) (i : Nat) (id : String) : Registry :=
  let seen := s.ends.length
  match s.find id with
  | none => s.put i (.running id none seen)
  | some k => (s.delete k).put i (.running id ((s.held k).map Prod.snd) seen)

inductive Landing where
  /-- It landed, in the session it took or in a `fresh` one, at this time. -/
  | landed (fresh : Bool) (now : Int)
  /-- `parkTask`: the session is cancelled, the rest is put back as it was taken. -/
  | parked
  deriving DecidableEq, Repr

def land (s : Registry) (i : Nat) (id : String) (resumed : Option OpenConversation) (seen : Nat) :
    Landing → Option Registry
  | .parked =>
    resumed.map fun held =>
      (s.cancel id held).put i (.running id (some { held with session := none, seen }) seen)
  | .landed fresh now =>
    match resumed with
    | none => some ({ s with
        sessions := s.sessions + 1
        directories := s.directories + 1 }.put i
          (.running id (some ⟨some s.sessions, s.directories, now, seen⟩) seen))
    | some held =>
      if fresh = false ∧ held.session.isSome then
        some (s.put i (.running id (some { held with lastLandedAt := now, seen }) seen))
      else some ({ s.cancel id held with sessions := s.sessions + 1 }.put i
        (.running id (some ⟨some s.sessions, held.directory, now, seen⟩) seen))

/-- `retain`, up to the first `await`. -/
def retain (s : Registry) (i : Nat) (id : String) (conversation : OpenConversation) : Registry :=
  let s := s.set id conversation
  enforceSessionCap options ({ s with
    retainedSessions :=
      (conversation.session.map fun session => (id, session)).toList ++ s.retainedSessions
    retainedDirectories := (id, conversation.directory) :: s.retainedDirectories }.put i .outside) i

inductive Event where
  | take (i : Nat) (id : String)
  | retain (i : Nat) (how : Landing)
  | closeIdleSessions (i : Nat) (now : Int)
  | endConversation (i : Nat) (id : String)
  | endAllConversations (i : Nat)
  /-- What a caller awaits has settled, or failed. -/
  | go (i : Nat) (failed : Bool)
  deriving DecidableEq, Repr

def arrive (s : Registry) (i : Nat) (next : Registry) : Option Registry :=
  if s.callers i = .outside then some next else none

def go (s : Registry) (i : Nat) (failed : Bool) : Option Registry :=
  match s.callers i with
  | .outside => none
  | .running _ _ _ => none
  | .capping => some (enforceSessionCap options s i)
  | .sweeping now next => some (closeIdleSessions options s i now next)
  | .ending id held rest =>
    some ({ s with destroyed := (id, held.directory) :: s.destroyed }.put i (.destroying rest))
  | .destroying rest => some (s.put i (if failed then .outside else .ended rest))
  | .ended rest => some (endNext s i rest)

def step (s : Registry) : Event → Option Registry
  | .take i id => arrive s i (takeConversation s i id)
  | .retain i how =>
    match s.callers i with
    | .running id resumed seen => do
      let s ← land s i id resumed seen how
      match s.callers i with
      | .running id (some conversation) _ => some (retain options s i id conversation)
      | _ => none
    | _ => none
  | .closeIdleSessions i now => arrive s i (closeIdleSessions options s i now 0)
  | .endConversation i id => arrive s i (endConversation s i id [])
  | .endAllConversations i =>
    arrive s i (endNext s i (s.slots.filterMap fun slot => slot.map Prod.fst))
  | .go i failed => go options s i failed

end

/-! ## Who has what -/

namespace Registry

def entryAt (s : Registry) : Nat ⊕ Nat → Option (String × OpenConversation)
  | .inl k => s.held k
  | .inr i => (s.callers i).holding

end Registry

def directoryOf (entry : Option (String × OpenConversation)) : Option (String × Nat) :=
  entry.map fun entry => (entry.1, entry.2.directory)

def sessionOf (entry : Option (String × OpenConversation)) : Option (String × Nat) :=
  entry.bind fun entry => entry.2.session.map fun session => (entry.1, session)

theorem entryAt_put (s : Registry) (i : Nat) (phase : Phase) :
    (s.put i phase).entryAt = Function.update s.entryAt (.inr i) phase.holding := by
  funext p
  cases p with
  | inl k => rw [Function.update_of_ne (by simp)]; rfl
  | inr j =>
    by_cases h : j = i
    · rw [h, Function.update_self]
      exact congrArg Phase.holding (Function.update_self ..)
    · rw [Function.update_of_ne (by simpa using h)]
      exact congrArg Phase.holding (Function.update_of_ne h ..)

theorem entryAt_slot (s : Registry) {k : Nat} (hk : k < s.slots.length)
    (entry : Option (String × OpenConversation)) :
    { s with slots := s.slots.set k entry }.entryAt = Function.update s.entryAt (.inl k) entry := by
  funext p
  cases p with
  | inl l =>
    by_cases h : l = k
    · rw [h, Function.update_self]
      simp only [Registry.entryAt, Registry.held, List.getElem?_set_self hk, Option.join_some]
    · rw [Function.update_of_ne (by simpa using h)]
      simp only [Registry.entryAt, Registry.held, List.getElem?_set_ne (Ne.symm h)]
  | inr j => rw [Function.update_of_ne (by simp)]; rfl

theorem entryAt_push (s : Registry) (entry : Option (String × OpenConversation)) :
    { s with slots := s.slots ++ [entry] }.entryAt =
      Function.update s.entryAt (.inl s.slots.length) entry := by
  funext p
  cases p with
  | inl l =>
    by_cases h : l = s.slots.length
    · rw [h, Function.update_self]
      simp [Registry.entryAt, Registry.held]
    · rw [Function.update_of_ne (by simpa using h)]
      rcases Nat.lt_or_gt_of_ne h with hlt | hgt
      · simp only [Registry.entryAt, Registry.held, List.getElem?_append_left hlt]
      · simp only [Registry.entryAt, Registry.held]
        rw [List.getElem?_eq_none (by simp; omega), List.getElem?_eq_none (by omega)]
  | inr j => rw [Function.update_of_ne (by simp)]; rfl

variable {entry : String × OpenConversation} {slot : Option (String × OpenConversation)}
  {phase : Phase}

theorem held_iff {s : Registry} {k : Nat} :
    s.held k = some entry ↔ s.slots[k]? = some (some entry) := Option.join_eq_some_iff

theorem held_lt {s : Registry} {k : Nat} (h : s.held k = some entry) : k < s.slots.length :=
  (List.getElem?_eq_some_iff.mp (held_iff.mp h)).1

theorem find_some {s : Registry} {id : String} {k : Nat} (h : s.find id = some k) :
    ∃ held, s.held k = some (id, held) := by
  obtain ⟨hk, hid, -⟩ := List.findIdx?_eq_some_iff_getElem.mp h
  cases hslot : s.slots[k] with
  | none =>
    rw [hslot] at hid
    cases hid
  | some entry =>
    rw [hslot] at hid
    refine ⟨entry.2, held_iff.mpr ?_⟩
    rw [List.getElem?_eq_getElem hk, hslot, ← of_decide_eq_true hid]

theorem find_none {s : Registry} {id : String} (h : s.find id = none) (k : Nat)
    (held : OpenConversation) : s.held k ≠ some (id, held) := by
  intro hk
  have hnone := List.findIdx?_eq_none_iff.mp h _ (List.mem_of_getElem? (held_iff.mp hk))
  simp at hnone

/-! ## The sessions that are held -/

def hasSession (slot : Option (String × OpenConversation)) : Bool :=
  slot.any fun held => held.2.session.isSome

theorem live_length (s : Registry) : s.live.length = s.slots.countP hasSession := by
  have hfrom : ∀ (slots : List (Option (String × OpenConversation))) (n : Nat),
      ((slots.zipIdx n).filterMap fun slot => slot.1.bind fun held =>
        if held.2.session.isSome then some (slot.2, held.2) else none).length =
          slots.countP hasSession := by
    intro slots
    induction slots with
    | nil => intro n; rfl
    | cons slot slots ih =>
      intro n
      rw [List.zipIdx_cons, List.countP_cons, ← ih (n + 1)]
      cases slot with
      | none => simp [hasSession]
      | some held => cases hsession : held.2.session <;> simp [hasSession, hsession]
  exact hfrom s.slots 0

theorem mem_live {s : Registry} {k : Nat} {held : OpenConversation} (h : (k, held) ∈ s.live) :
    ∃ id, s.held k = some (id, held) ∧ held.session.isSome = true := by
  obtain ⟨⟨slot, l⟩, hslot, hentry⟩ := List.mem_filterMap.mp h
  cases slot with
  | none => cases hentry
  | some entry =>
    dsimp only [Option.bind_some] at hentry
    split at hentry
    · rename_i hsession
      obtain ⟨rfl, rfl⟩ := Prod.mk.inj (Option.some.inj hentry)
      exact ⟨entry.1, held_iff.mpr (List.mem_zipIdx_iff_getElem?.mp hslot), hsession⟩
    · cases hentry

theorem countP_set_le (slots : List (Option (String × OpenConversation))) (k : Nat)
    (h : hasSession slot = false) :
    (slots.set k slot).countP hasSession ≤ slots.countP hasSession := by
  induction slots generalizing k with
  | nil => exact Nat.le_refl _
  | cons first slots ih =>
    cases k with
    | zero =>
      rw [List.set_cons_zero, List.countP_cons, List.countP_cons, h]
      simp
    | succ k =>
      rw [List.set_cons_succ, List.countP_cons, List.countP_cons]
      exact Nat.add_le_add_right (ih k) _

/-! ## The invariant -/

/-- What holds of a caller where it stands, after `n` endings. -/
def Phase.Fits (n : Nat) : Phase → Prop
  | .running _ _ seen => seen ≤ n
  | .ending _ held _ => held.session = none
  | _ => True

theorem Phase.Fits.mono {m n : Nat} (h : phase.Fits m) (hle : m ≤ n) : phase.Fits n := by
  cases phase with
  | running => exact Nat.le_trans h hle
  | _ => exact h

structure Kept (s : Registry) : Prop where
  directories : Tracked (directoryOf ∘ s.entryAt) s.retainedDirectories s.destroyed s.directories
  sessions : Tracked (sessionOf ∘ s.entryAt) s.retainedSessions s.cancelled s.sessions
  keys : ∀ k l id held other, s.held k = some (id, held) → s.held l = some (id, other) → k = l
  noted : ∀ k id held, s.held k = some (id, held) → (id, held.directory) ∈ s.retainedDirectories
  seen : ∀ k id held, s.held k = some (id, held) →
    held.seen ≤ s.ends.length ∧ id ∉ s.ends.drop held.seen
  fits : ∀ i, (s.callers i).Fits s.ends.length

theorem kept_init : Kept {} where
  directories := by
    have hnone : directoryOf ∘ ({} : Registry).entryAt = fun _ => none := by
      funext p
      cases p <;> rfl
    rw [hnone]
    exact Tracked.empty
  sessions := by
    have hnone : sessionOf ∘ ({} : Registry).entryAt = fun _ => none := by
      funext p
      cases p <;> rfl
    rw [hnone]
    exact Tracked.empty
  keys := by simp [Registry.held]
  noted := by simp [Registry.held]
  seen := by simp [Registry.held]
  fits _ := trivial

theorem put_self (s : Registry) (i : Nat) (phase : Phase) : (s.put i phase).callers i = phase :=
  Function.update_self ..

theorem put_put (s : Registry) (i : Nat) (first second : Phase) :
    (s.put i first).put i second = s.put i second := by
  simp only [Registry.put, Function.update_idem]

theorem fits_put {s : Registry} {i : Nat} {n : Nat} (hphase : phase.Fits n)
    (h : ∀ j, (s.callers j).Fits n) (j : Nat) : ((s.put i phase).callers j).Fits n := by
  by_cases hji : j = i
  · rw [hji]
    exact (congrArg (Phase.Fits n) (Function.update_self i phase s.callers)).mpr hphase
  · exact (congrArg (Phase.Fits n) (Function.update_of_ne hji phase s.callers)).mpr (h j)

theorem tokens_same {f : Option (String × OpenConversation) → Option (String × Nat)}
    {entries : Nat ⊕ Nat → Option (String × OpenConversation)} {p : Nat ⊕ Nat}
    {entry : Option (String × OpenConversation)} (h : f entry = f (entries p)) :
    f ∘ Function.update entries p entry = f ∘ entries := by
  rw [Function.comp_update, h]
  exact Function.update_eq_self p _

theorem Kept.put {s : Registry} (h : Kept s) {i : Nat}
    (hdirectory : directoryOf phase.holding = directoryOf (s.callers i).holding)
    (hsession : sessionOf phase.holding = sessionOf (s.callers i).holding)
    (hfits : phase.Fits s.ends.length) : Kept (s.put i phase) where
  directories := by
    rw [entryAt_put, @tokens_same directoryOf s.entryAt (.inr i) _ hdirectory]
    exact h.directories
  sessions := by
    rw [entryAt_put, @tokens_same sessionOf s.entryAt (.inr i) _ hsession]
    exact h.sessions
  keys := h.keys
  noted := h.noted
  seen := h.seen
  fits := fits_put hfits h.fits

theorem held_set {s : Registry} {k l : Nat}
    (h : ({ s with slots := s.slots.set k slot } : Registry).held l = some entry) :
    (l = k ∧ slot = some entry) ∨ (l ≠ k ∧ s.held l = some entry) := by
  by_cases hlk : l = k
  · have hlt := held_lt h
    rw [List.length_set] at hlt
    rw [held_iff, hlk, List.getElem?_set_self (hlk ▸ hlt)] at h
    exact .inl ⟨hlk, Option.some.inj h⟩
  · rw [held_iff, List.getElem?_set_ne (Ne.symm hlk)] at h
    exact .inr ⟨hlk, held_iff.mpr h⟩

theorem Kept.takes {s : Registry} (h : Kept s) {i k : Nat} (hk : k < s.slots.length)
    (hi : (s.callers i).holding = none) (hphase : phase.holding = s.held k)
    (hfits : phase.Fits s.ends.length) : Kept ((s.delete k).put i phase) := by
  have hplace : ((s.delete k).put i phase).entryAt =
      Function.update (Function.update s.entryAt (.inl k) none) (.inr i) (s.entryAt (.inl k)) := by
    rw [entryAt_put, hphase]
    exact congrArg (Function.update · _ _) (entryAt_slot s hk none)
  have hback : ∀ l entry, (s.delete k).held l = some entry → s.held l = some entry := by
    intro l entry hl
    rcases held_set hl with ⟨-, hnone⟩ | ⟨-, hl⟩
    · cases hnone
    · exact hl
  constructor
  · rw [hplace, Function.comp_update, Function.comp_update]
    exact h.directories.move (congrArg directoryOf hi)
  · rw [hplace, Function.comp_update, Function.comp_update]
    exact h.sessions.move (congrArg sessionOf hi)
  · intro l m id held other hl hm
    exact h.keys l m id held other (hback l _ hl) (hback m _ hm)
  · intro l id held hl
    exact h.noted l id held (hback l _ hl)
  · intro l id held hl
    exact h.seen l id held (hback l _ hl)
  · exact fits_put hfits h.fits

theorem Kept.closeSession {s : Registry} (h : Kept s) {k : Nat} {id : String}
    {held : OpenConversation} (hk : s.held k = some (id, held)) : Kept (s.closeSession k) := by
  have hclose : s.closeSession k = { s.cancel id held with
      slots := s.slots.set k (some (id, { held with session := none })) } := by
    simp only [Registry.closeSession, hk]
  have hplace : (s.closeSession k).entryAt =
      Function.update s.entryAt (.inl k) (some (id, { held with session := none })) := by
    rw [hclose]
    exact entryAt_slot (s.cancel id held) (held_lt hk) _
  have hback : ∀ l other found, (s.closeSession k).held l = some (other, found) →
      ∃ before, s.held l = some (other, before) ∧ before.directory = found.directory ∧
        before.seen = found.seen := by
    intro l other found hl
    rw [hclose] at hl
    rcases held_set hl with ⟨rfl, hentry⟩ | ⟨-, hl⟩
    · obtain ⟨rfl, rfl⟩ := Prod.mk.inj (Option.some.inj hentry)
      exact ⟨held, hk, rfl, rfl⟩
    · exact ⟨found, hl, rfl, rfl⟩
  constructor
  · have hsame : directoryOf (some (id, { held with session := none })) =
        directoryOf (s.entryAt (.inl k)) := (congrArg directoryOf hk).symm
    rw [hplace, tokens_same hsame, hclose]
    exact h.directories
  · rw [hplace, hclose, Function.comp_update]
    have htoken : (sessionOf ∘ s.entryAt) (.inl k) =
        held.session.map fun session => (id, session) := congrArg sessionOf hk
    cases hsession : held.session with
    | none =>
      rw [hsession] at htoken
      simp only [Registry.cancel, hsession]
      rw [show sessionOf (some (id, { held with session := none })) =
        (sessionOf ∘ s.entryAt) (.inl k) from htoken.symm, Function.update_eq_self]
      exact h.sessions
    | some session =>
      rw [hsession] at htoken
      simp only [Registry.cancel, hsession]
      exact h.sessions.retire htoken
  · intro l m other found found' hl hm
    obtain ⟨before, hl, -⟩ := hback l other found hl
    obtain ⟨before', hm, -⟩ := hback m other found' hm
    exact h.keys l m other before before' hl hm
  · intro l other found hl
    obtain ⟨before, hl, hdirectory, -⟩ := hback l other found hl
    rw [hclose, ← hdirectory]
    exact h.noted l other before hl
  · intro l other found hl
    obtain ⟨before, hl, -, hseen⟩ := hback l other found hl
    rw [hclose, ← hseen]
    exact h.seen l other before hl
  · rw [hclose]
    exact h.fits

theorem Kept.cancelOwn {s : Registry} (h : Kept s) {i : Nat} {id : String} {held : OpenConversation}
    (hi : (s.callers i).holding = some (id, held))
    (hdirectory : directoryOf phase.holding = some (id, held.directory))
    (hsession : sessionOf phase.holding = none) (hfits : phase.Fits s.ends.length) :
    Kept ((s.cancel id held).put i phase) where
  directories := by
    have hsame : directoryOf phase.holding = directoryOf (s.entryAt (.inr i)) :=
      hdirectory.trans (congrArg directoryOf hi).symm
    rw [entryAt_put, @tokens_same directoryOf (s.cancel id held).entryAt (.inr i) _ hsame]
    exact h.directories
  sessions := by
    rw [entryAt_put, Function.comp_update, hsession]
    have htoken : (sessionOf ∘ s.entryAt) (.inr i) =
        held.session.map fun session => (id, session) := congrArg sessionOf hi
    cases hsession : held.session with
    | none =>
      rw [hsession] at htoken
      simp only [Registry.cancel, Registry.put, hsession]
      have hself : Function.update (sessionOf ∘ s.entryAt) (.inr i) none = sessionOf ∘ s.entryAt :=
        Function.update_eq_self_iff.mpr htoken.symm
      show Tracked (Function.update (sessionOf ∘ s.entryAt) (.inr i) none) _ _ _
      rw [hself]
      exact h.sessions
    | some session =>
      rw [hsession] at htoken
      simp only [Registry.cancel, Registry.put, hsession]
      exact h.sessions.retire htoken
  keys := h.keys
  noted := h.noted
  seen := h.seen
  fits := fits_put hfits h.fits

theorem Kept.openSession {s : Registry} (h : Kept s) {i : Nat} {id : String}
    {held : OpenConversation} (hi : (s.callers i).holding = some (id, held))
    (hnone : held.session = none)
    (hdirectory : directoryOf phase.holding = some (id, held.directory))
    (hsession : sessionOf phase.holding = some (id, s.sessions)) (hfits : phase.Fits s.ends.length) :
    Kept ({ s with sessions := s.sessions + 1 }.put i phase) where
  directories := by
    have hsame : directoryOf phase.holding = directoryOf (s.entryAt (.inr i)) :=
      hdirectory.trans (congrArg directoryOf hi).symm
    rw [entryAt_put]
    show Tracked (directoryOf ∘ Function.update s.entryAt (.inr i) phase.holding) _ _ _
    rw [tokens_same hsame]
    exact h.directories
  sessions := by
    rw [entryAt_put, Function.comp_update, hsession]
    have htoken : (sessionOf ∘ s.entryAt) (.inr i) = none := by
      rw [show (sessionOf ∘ s.entryAt) (.inr i) = _ from congrArg sessionOf hi]
      simp only [sessionOf, Option.bind_some, hnone, Option.map_none]
    exact h.sessions.make htoken id
  keys := h.keys
  noted := h.noted
  seen := h.seen
  fits := fits_put hfits h.fits

theorem Kept.coldStart {s : Registry} (h : Kept s) {i : Nat} {id : String}
    (hi : (s.callers i).holding = none)
    (hdirectory : directoryOf phase.holding = some (id, s.directories))
    (hsession : sessionOf phase.holding = some (id, s.sessions)) (hfits : phase.Fits s.ends.length) :
    Kept ({ s with
      sessions := s.sessions + 1
      directories := s.directories + 1 }.put i phase) where
  directories := by
    rw [entryAt_put, Function.comp_update, hdirectory]
    exact h.directories.make
      (show (directoryOf ∘ s.entryAt) (.inr i) = none from congrArg directoryOf hi) id
  sessions := by
    rw [entryAt_put, Function.comp_update, hsession]
    exact h.sessions.make
      (show (sessionOf ∘ s.entryAt) (.inr i) = none from congrArg sessionOf hi) id
  keys := h.keys
  noted := h.noted
  seen := h.seen
  fits := fits_put hfits h.fits

theorem Kept.destroys {s : Registry} (h : Kept s) {i : Nat} {id : String} {held : OpenConversation}
    (hi : (s.callers i).holding = some (id, held)) (hnone : held.session = none)
    (hphase : phase.holding = none) (hfits : phase.Fits s.ends.length) :
    Kept ({ s with destroyed := (id, held.directory) :: s.destroyed }.put i phase) where
  directories := by
    rw [entryAt_put, Function.comp_update, hphase]
    exact h.directories.retire (congrArg directoryOf hi)
  sessions := by
    have hsame : sessionOf phase.holding = sessionOf (s.entryAt (.inr i)) := by
      rw [hphase, show s.entryAt (.inr i) = _ from hi]
      simp only [sessionOf, Option.bind_some, hnone, Option.map_none, Option.bind_none]
    rw [entryAt_put]
    show Tracked (sessionOf ∘ Function.update s.entryAt (.inr i) phase.holding) _ _ _
    rw [tokens_same hsame]
    exact h.sessions
  keys := h.keys
  noted := h.noted
  seen := h.seen
  fits := fits_put hfits h.fits

theorem Kept.ends {s : Registry} (h : Kept s) {id : String}
    (hnone : ∀ k held, s.held k ≠ some (id, held)) : Kept { s with ends := s.ends ++ [id] } where
  directories := h.directories
  sessions := h.sessions
  keys := h.keys
  noted := h.noted
  seen k other held hk := by
    obtain ⟨hle, hout⟩ := h.seen k other held hk
    refine ⟨by rw [List.length_append]; exact Nat.le_add_right_of_le hle, ?_⟩
    rw [List.drop_append_of_le_length hle, List.mem_append, List.mem_singleton]
    rintro (hother | rfl)
    · exact hout hother
    · exact hnone k held hk
  fits i := (h.fits i).mono (by rw [List.length_append]; exact Nat.le_add_right ..)

theorem Kept.store {s : Registry} (h : Kept s) {i : Nat} {id : String}
    {held : OpenConversation} (hi : (s.callers i).holding = some (id, held))
    (hfind : s.find id = none)
    (hseen : held.seen ≤ s.ends.length ∧ id ∉ s.ends.drop held.seen) :
    Kept ({ s.set id held with
      retainedSessions :=
        (held.session.map fun session => (id, session)).toList ++
          (s.set id held).retainedSessions
      retainedDirectories := (id, held.directory) :: (s.set id held).retainedDirectories }.put i
        .outside) := by
  have hset : s.set id held = { s with slots := s.slots ++ [some (id, held)] } := by
    simp only [Registry.set, hfind]
  have hempty : s.entryAt (.inl s.slots.length) = none := by
    simp [Registry.entryAt, Registry.held]
  have hplace : ((s.set id held).put i .outside).entryAt = Function.update
      (Function.update s.entryAt (.inr i) none) (.inl s.slots.length) (s.entryAt (.inr i)) := by
    rw [entryAt_put, hset, entryAt_push, show s.entryAt (.inr i) = _ from hi]
    exact Function.update_comm (by simp) _ _ _
  have hback : ∀ l other found, (s.set id held).held l = some (other, found) →
      (l = s.slots.length ∧ other = id ∧ found = held) ∨ s.held l = some (other, found) := by
    intro l other found hl
    rw [hset, held_iff, List.getElem?_append] at hl
    split at hl
    · exact .inr (held_iff.mpr hl)
    · rename_i hge
      rw [List.getElem?_singleton] at hl
      split at hl
      · rename_i hzero
        obtain ⟨rfl, rfl⟩ := Prod.mk.inj (Option.some.inj (Option.some.inj hl))
        exact .inl ⟨by omega, rfl, rfl⟩
      · cases hl
  have hends : (s.set id held).ends = s.ends := by rw [hset]
  have htoken : (directoryOf ∘ s.entryAt) (.inr i) = some (id, held.directory) :=
    congrArg directoryOf hi
  constructor
  · show Tracked (directoryOf ∘ ((s.set id held).put i .outside).entryAt) _ _ _
    rw [hplace, Function.comp_update, Function.comp_update]
    have hmoved := h.directories.move (p := .inr i) (congrArg directoryOf hempty)
    rw [hset]
    exact hmoved.note (p := .inl s.slots.length) (by rw [Function.update_self, htoken])
  · show Tracked (sessionOf ∘ ((s.set id held).put i .outside).entryAt) _ _ _
    rw [hplace, Function.comp_update, Function.comp_update]
    have hmoved := h.sessions.move (p := .inr i) (congrArg sessionOf hempty)
    have hsession : (sessionOf ∘ s.entryAt) (.inr i) =
        held.session.map fun session => (id, session) := congrArg sessionOf hi
    rw [hset]
    cases hheld : held.session with
    | none => exact hmoved
    | some session =>
      rw [hheld] at hsession
      exact hmoved.note (p := .inl s.slots.length) (by rw [Function.update_self, hsession]; rfl)
  · intro l m other found found' hl hm
    rcases hback l other found hl with ⟨rfl, rfl, -⟩ | hl' <;>
      rcases hback m other found' hm with ⟨rfl, hid, -⟩ | hm'
    · rfl
    · exact absurd hm' (find_none hfind m found')
    · exact absurd (hid ▸ hl') (find_none hfind l found)
    · exact h.keys l m other found found' hl' hm'
  · intro l other found hl
    show (other, found.directory) ∈ (id, held.directory) :: (s.set id held).retainedDirectories
    rw [hset]
    rcases hback l other found hl with ⟨-, rfl, rfl⟩ | hl'
    · exact List.mem_cons_self
    · exact List.mem_cons_of_mem _ (h.noted l other found hl')
  · intro l other found hl
    show found.seen ≤ (s.set id held).ends.length ∧ other ∉ (s.set id held).ends.drop found.seen
    rw [hends]
    rcases hback l other found hl with ⟨-, rfl, rfl⟩ | hl'
    · exact hseen
    · exact h.seen l other found hl'
  · show ∀ j, (((s.set id held).put i .outside).callers j).Fits (s.set id held).ends.length
    rw [hset]
    exact fits_put trivial h.fits

/-! ## The calls keep it -/

section

variable {options : ConversationRegistryOptions}

theorem mem_live_of_oldest {s : Registry} {oldest : Nat × OpenConversation}
    (h : (s.live.insertionSort fun a b => a.2.lastLandedAt ≤ b.2.lastLandedAt).head? =
      some oldest) : oldest ∈ s.live :=
  (List.perm_insertionSort _ s.live).mem_iff.mp (List.mem_of_head? h)

theorem kept_enforceSessionCap {s : Registry} (h : Kept s) {i : Nat}
    (hi : (s.callers i).holding = none) : Kept (enforceSessionCap options s i) := by
  have hout : Kept (s.put i .outside) :=
    h.put (by rw [hi]; rfl) (by rw [hi]; rfl) trivial
  unfold enforceSessionCap
  dsimp only
  split
  · exact hout
  · rename_i oldest holdest
    split
    · exact hout
    · obtain ⟨id, hk, -⟩ := mem_live (mem_live_of_oldest holdest)
      have hcallers : (s.closeSession oldest.1).callers = s.callers := by
        simp only [Registry.closeSession, hk, Registry.cancel]
      refine (h.closeSession hk).put ?_ ?_ trivial <;> rw [hcallers, hi] <;> rfl

theorem kept_closeIdleSessions {s : Registry} (h : Kept s) {i : Nat} {now : Int} {next : Nat}
    (hi : (s.callers i).holding = none) : Kept (closeIdleSessions options s i now next) := by
  unfold closeIdleSessions
  split
  · exact h.put (by rw [hi]; rfl) (by rw [hi]; rfl) trivial
  · rename_i entry hentry
    obtain ⟨id, hk, -⟩ := mem_live (List.mem_of_find?_eq_some hentry)
    have hcallers : (s.closeSession entry.1).callers = s.callers := by
      simp only [Registry.closeSession, hk, Registry.cancel]
    refine (h.closeSession hk).put ?_ ?_ trivial <;> rw [hcallers, hi] <;> rfl

variable {rest : List String}

theorem kept_endConversation {s : Registry} (h : Kept s) {i : Nat} {id : String}
    (hi : (s.callers i).holding = none) : Kept (endConversation s i id rest) := by
  have hfind : Registry.find { s with ends := s.ends ++ [id] } id = s.find id := rfl
  have hheld : Registry.held { s with ends := s.ends ++ [id] } = s.held := rfl
  simp only [endConversation, hfind, hheld]
  cases hf : s.find id with
  | none =>
    refine (h.ends (find_none hf)).put ?_ ?_ trivial
    · exact (congrArg directoryOf hi).symm
    · exact (congrArg sessionOf hi).symm
  | some k =>
    obtain ⟨held, hk⟩ := find_some hf
    simp only [hk]
    -- the entry is taken, its session closed, and nothing is left under its key
    have htaken : Kept ((s.delete k).put i (.running id (some held) 0)) :=
      h.takes (held_lt hk) hi hk.symm (Nat.zero_le _)
    have hholding : (((s.delete k).put i (.running id (some held) 0)).callers i).holding =
        some (id, held) := by rw [put_self]; rfl
    have hclosed : Kept ((((s.delete k).cancel id held).put i (.running id (some held) 0)).put i
        (.ending id { held with session := none } rest)) :=
      htaken.cancelOwn hholding rfl rfl rfl
    rw [put_put] at hclosed
    refine hclosed.ends fun l other hl => ?_
    rcases held_set hl with ⟨-, hnone⟩ | ⟨hlk, hl⟩
    · cases hnone
    · exact hlk (h.keys l k id other held hl hk)

theorem kept_endNext {s : Registry} (h : Kept s) {i : Nat} (hi : (s.callers i).holding = none) :
    Kept (endNext s i rest) := by
  cases rest with
  | nil => exact h.put (by rw [hi]; rfl) (by rw [hi]; rfl) trivial
  | cons id rest => exact kept_endConversation h hi

theorem kept_takeConversation {s : Registry} (h : Kept s) {i : Nat} {id : String}
    (hi : (s.callers i).holding = none) : Kept (takeConversation s i id) := by
  unfold takeConversation
  dsimp only
  cases hf : s.find id with
  | none => exact h.put (by rw [hi]; rfl) (by rw [hi]; rfl) (Nat.le_refl _)
  | some k =>
    obtain ⟨held, hk⟩ := find_some hf
    simp only [hk, Option.map_some]
    exact h.takes (held_lt hk) hi hk.symm (Nat.le_refl _)

/-- What a turn does before it retains: the conversation it retains is its own. -/
structure Lands (s t : Registry) (i : Nat) (id : String) (seen : Nat)
    (conversation : OpenConversation) : Prop where
  kept : Kept t
  slots : t.slots = s.slots
  ends : t.ends = s.ends
  noted : t.retainedDirectories = s.retainedDirectories
  callers : t.callers i = .running id (some conversation) seen
  seen : conversation.seen = seen

theorem land_lands {s t : Registry} (h : Kept s) {i : Nat} {id : String}
    {resumed : Option OpenConversation} {seen : Nat} {how : Landing}
    (hi : s.callers i = .running id resumed seen) (hstep : land s i id resumed seen how = some t) :
    ∃ conversation, Lands s t i id seen conversation := by
  have hfits : seen ≤ s.ends.length := by
    have hfits := h.fits i
    rw [hi] at hfits
    exact hfits
  have hholding : (s.callers i).holding = (Phase.running id resumed seen).holding := by rw [hi]
  cases how with
  | parked =>
    cases resumed with
    | none => cases hstep
    | some held =>
      obtain rfl := Option.some.inj hstep
      exact ⟨_, h.cancelOwn hholding rfl rfl hfits, rfl, rfl, rfl, Function.update_self .., rfl⟩
  | landed fresh now =>
    cases resumed with
    | none =>
      obtain rfl := Option.some.inj hstep
      exact ⟨_, h.coldStart hholding rfl rfl hfits, rfl, rfl, rfl, Function.update_self .., rfl⟩
    | some held =>
      simp only [land] at hstep
      split at hstep
      · obtain rfl := Option.some.inj hstep
        refine ⟨_, h.put ?_ ?_ hfits, rfl, rfl, rfl, Function.update_self .., rfl⟩
        · rw [hholding]
          rfl
        · rw [hholding]
          rfl
      · obtain rfl := Option.some.inj hstep
        -- the old session is closed, then one is opened
        have hclosed : Kept ((s.cancel id held).put i
            (.running id (some { held with session := none }) seen)) :=
          h.cancelOwn hholding rfl rfl hfits
        have hself : (((s.cancel id held).put i
            (.running id (some { held with session := none }) seen)).callers i).holding =
              some (id, { held with session := none }) := by rw [put_self]; rfl
        have hopened : Kept ((({ s.cancel id held with sessions := s.sessions + 1 } :
            Registry).put i (.running id (some { held with session := none }) seen)).put i
              (.running id (some ⟨some s.sessions, held.directory, now, seen⟩) seen)) :=
          hclosed.openSession hself rfl rfl rfl hfits
        rw [put_put] at hopened
        exact ⟨_, hopened, rfl, rfl, rfl, put_self .., rfl⟩

theorem kept_retain {s : Registry} (h : Kept s) {i : Nat} {id : String} {seen : Nat}
    {conversation : OpenConversation} (hi : s.callers i = .running id (some conversation) seen)
    (hfind : s.find id = none)
    (hseen : conversation.seen ≤ s.ends.length ∧ id ∉ s.ends.drop conversation.seen) :
    Kept (retain options s i id conversation) := by
  have hholding : (s.callers i).holding = some (id, conversation) := by rw [hi]; rfl
  exact kept_enforceSessionCap (h.store hholding hfind hseen) (by rw [put_self]; rfl)

/-! ## The cap -/

/-- No more sessions are held than the cap allows, or a `retain` is at it. -/
def Capped (options : ConversationRegistryOptions) (s : Registry) : Prop :=
  (∃ i, s.callers i = .capping) ∨ s.live.length ≤ options.maxSessions

theorem Capped.mono {s t : Registry} (h : Capped options s)
    (hlive : t.live.length ≤ s.live.length)
    (hcallers : ∀ j, s.callers j = .capping → t.callers j = .capping) : Capped options t := by
  rcases h with ⟨j, hj⟩ | hle
  · exact .inl ⟨j, hcallers j hj⟩
  · exact .inr (Nat.le_trans hlive hle)

theorem capping_put {s t : Registry} {i : Nat} {phase : Phase} (ht : t.callers = s.callers)
    (hi : s.callers i ≠ .capping) (j : Nat) (hj : s.callers j = .capping) :
    (t.put i phase).callers j = .capping := by
  have hji : j ≠ i := by
    rintro rfl
    exact hi hj
  exact (Function.update_of_ne hji phase t.callers).trans (ht ▸ hj)

theorem closeSession_live (s : Registry) (k : Nat) :
    (s.closeSession k).live.length ≤ s.live.length := by
  rw [live_length, live_length]
  unfold Registry.closeSession
  split
  · exact Nat.le_refl _
  · exact countP_set_le s.slots k rfl

theorem closeSession_callers (s : Registry) (k : Nat) :
    (s.closeSession k).callers = s.callers := by
  unfold Registry.closeSession
  split <;> rfl

theorem delete_live (s : Registry) (k : Nat) : (s.delete k).live.length ≤ s.live.length := by
  rw [live_length, live_length]
  exact countP_set_le s.slots k rfl

/-- **The cap is met when `enforceSessionCap` returns.** -/
theorem capped_enforceSessionCap (s : Registry) (i : Nat) :
    Capped options (enforceSessionCap options s i) := by
  have hlength := (List.perm_insertionSort
    (fun a b : Nat × OpenConversation => a.2.lastLandedAt ≤ b.2.lastLandedAt) s.live).length_eq
  unfold enforceSessionCap
  dsimp only
  split
  · rename_i hnone
    refine .inr ?_
    show s.live.length ≤ _
    rw [← hlength, List.head?_eq_none_iff.mp hnone]
    exact Nat.zero_le _
  · split
    · rename_i hle
      rw [hlength] at hle
      exact .inr hle
    · exact .inl ⟨i, put_self ..⟩

theorem capped_closeIdleSessions {s : Registry} (h : Capped options s) {i : Nat} {now : Int}
    {next : Nat} (hi : s.callers i ≠ .capping) :
    Capped options (closeIdleSessions options s i now next) := by
  unfold closeIdleSessions
  split
  · exact h.mono (Nat.le_refl _) (capping_put rfl hi)
  · exact h.mono (closeSession_live ..) (capping_put (closeSession_callers ..) hi)

theorem capped_endConversation {s : Registry} (h : Capped options s) {i : Nat} {id : String}
    (hi : s.callers i ≠ .capping) : Capped options (endConversation s i id rest) := by
  unfold endConversation
  dsimp only
  split
  · exact h.mono (Nat.le_refl _) (capping_put rfl hi)
  · split
    · exact h.mono (Nat.le_refl _) (capping_put rfl hi)
    · exact h.mono (delete_live s _) (capping_put rfl hi)

theorem capped_endNext {s : Registry} (h : Capped options s) {i : Nat} (hi : s.callers i ≠ .capping) :
    Capped options (endNext s i rest) := by
  cases rest with
  | nil => exact h.mono (Nat.le_refl _) (capping_put rfl hi)
  | cons id rest => exact capped_endConversation h hi

theorem capped_takeConversation {s : Registry} (h : Capped options s) {i : Nat} {id : String}
    (hi : s.callers i ≠ .capping) : Capped options (takeConversation s i id) := by
  unfold takeConversation
  dsimp only
  split
  · exact h.mono (Nat.le_refl _) (capping_put rfl hi)
  · exact h.mono (delete_live s _) (capping_put rfl hi)

/-! ## One step -/

/-- Nothing is held under the id of a turn, and no ending of that id came since it began. -/
def MayRetain (s : Registry) : Phase → Prop
  | .running id _ seen => s.find id = none ∧ id ∉ s.ends.drop seen
  | _ => True

instance (s : Registry) : DecidablePred (MayRetain s)
  | .running id _ seen => inferInstanceAs (Decidable (s.find id = none ∧ id ∉ s.ends.drop seen))
  | .outside => isTrue trivial
  | .capping => isTrue trivial
  | .sweeping _ _ => isTrue trivial
  | .ending _ _ _ => isTrue trivial
  | .destroying _ => isTrue trivial
  | .ended _ => isTrue trivial

def Clear (s : Registry) : Event → Prop
  | .retain i _ => MayRetain s (s.callers i)
  | _ => True

instance (s : Registry) : DecidablePred (Clear s)
  | .retain i _ => inferInstanceAs (Decidable (MayRetain s (s.callers i)))
  | .take _ _ => isTrue trivial
  | .closeIdleSessions _ _ => isTrue trivial
  | .endConversation _ _ => isTrue trivial
  | .endAllConversations _ => isTrue trivial
  | .go _ _ => isTrue trivial

theorem arrive_some {s t next : Registry} {i : Nat} (h : arrive s i next = some t) :
    s.callers i = .outside ∧ t = next := by
  unfold arrive at h
  split at h
  · rename_i hi
    exact ⟨hi, (Option.some.inj h).symm⟩
  · cases h

theorem step_retain {s t : Registry} {i : Nat} {how : Landing} (h : Kept s)
    (hstep : step options s (.retain i how) = some t) :
    ∃ id resumed seen conversation landed, s.callers i = .running id resumed seen ∧
      Lands s landed i id seen conversation ∧ t = retain options landed i id conversation := by
  simp only [step] at hstep
  cases hi : s.callers i with
  | running id resumed seen =>
    rw [hi] at hstep
    obtain ⟨landed, hland, hstep⟩ := Option.bind_eq_some_iff.mp hstep
    obtain ⟨conversation, hlands⟩ := land_lands h hi hland
    rw [hlands.callers] at hstep
    exact ⟨id, resumed, seen, conversation, landed, rfl, hlands, (Option.some.inj hstep).symm⟩
  | _ =>
    rw [hi] at hstep
    cases hstep

theorem kept_go {s t : Registry} (h : Kept s) (hc : Capped options s) {i : Nat} {failed : Bool}
    (hstep : go options s i failed = some t) : Kept t ∧ Capped options t := by
  unfold go at hstep
  cases hi : s.callers i with
  | outside =>
    rw [hi] at hstep
    cases hstep
  | running =>
    rw [hi] at hstep
    cases hstep
  | capping =>
    rw [hi] at hstep
    obtain rfl := Option.some.inj hstep
    exact ⟨kept_enforceSessionCap h (by rw [hi]; rfl), capped_enforceSessionCap s i⟩
  | sweeping now next =>
    rw [hi] at hstep
    obtain rfl := Option.some.inj hstep
    exact ⟨kept_closeIdleSessions h (by rw [hi]; rfl),
      capped_closeIdleSessions hc (by rw [hi]; simp)⟩
  | ending id held rest =>
    rw [hi] at hstep
    obtain rfl := Option.some.inj hstep
    have hnone := h.fits i
    rw [hi] at hnone
    exact ⟨h.destroys (by rw [hi]; rfl) hnone rfl trivial,
      hc.mono (Nat.le_refl _) (capping_put rfl (by rw [hi]; simp))⟩
  | destroying rest =>
    rw [hi] at hstep
    obtain rfl := Option.some.inj hstep
    refine ⟨h.put ?_ ?_ ?_, hc.mono (Nat.le_refl _) (capping_put rfl (by rw [hi]; simp))⟩
    · rw [hi]
      cases failed <;> rfl
    · rw [hi]
      cases failed <;> rfl
    · cases failed <;> trivial
  | ended rest =>
    rw [hi] at hstep
    obtain rfl := Option.some.inj hstep
    exact ⟨kept_endNext h (by rw [hi]; rfl), capped_endNext hc (by rw [hi]; simp)⟩

/-- **A step where nothing is overwritten or brought back keeps the invariant and the cap.** -/
theorem kept_step {s t : Registry} {e : Event} (h : Kept s ∧ Capped options s)
    (hclear : Clear s e) (hstep : step options s e = some t) : Kept t ∧ Capped options t := by
  obtain ⟨h, hc⟩ := h
  cases e with
  | take i id =>
    obtain ⟨hi, rfl⟩ := arrive_some hstep
    exact ⟨kept_takeConversation h (by rw [hi]; rfl), capped_takeConversation hc (by rw [hi]; simp)⟩
  | retain i how =>
    obtain ⟨id, resumed, seen, conversation, landed, hi, hlands, rfl⟩ := step_retain h hstep
    simp only [Clear, MayRetain, hi] at hclear
    have hfits := h.fits i
    rw [hi] at hfits
    refine ⟨kept_retain hlands.kept hlands.callers ?_ ?_, capped_enforceSessionCap _ i⟩
    · rw [Registry.find, hlands.slots]
      exact hclear.1
    · rw [hlands.seen, hlands.ends]
      exact ⟨hfits, hclear.2⟩
  | closeIdleSessions i now =>
    obtain ⟨hi, rfl⟩ := arrive_some hstep
    exact ⟨kept_closeIdleSessions h (by rw [hi]; rfl),
      capped_closeIdleSessions hc (by rw [hi]; simp)⟩
  | endConversation i id =>
    obtain ⟨hi, rfl⟩ := arrive_some hstep
    exact ⟨kept_endConversation h (by rw [hi]; rfl), capped_endConversation hc (by rw [hi]; simp)⟩
  | endAllConversations i =>
    obtain ⟨hi, rfl⟩ := arrive_some hstep
    exact ⟨kept_endNext h (by rw [hi]; rfl), capped_endNext hc (by rw [hi]; simp)⟩
  | go i failed => exact kept_go h hc hstep

/-! ## Owned once, and never lost -/

/-- Every session and every directory that was retained has one owner, under its id: a slot
it is held in, a turn that took it or an ending at work on it. Or it is gone: the session
cancelled, the directory destroyed by an ending of its conversation. -/
structure Owned (options : ConversationRegistryOptions) (s : Registry) : Prop where
  sessions : ∀ id session, (id, session) ∈ s.retainedSessions →
    (∃! p, sessionOf (s.entryAt p) = some (id, session)) ∨ (id, session) ∈ s.cancelled
  directories : ∀ id directory, (id, directory) ∈ s.retainedDirectories →
    (∃! p, directoryOf (s.entryAt p) = some (id, directory)) ∨ (id, directory) ∈ s.destroyed
  destroyed : ∀ id other directory, (id, directory) ∈ s.destroyed →
    (other, directory) ∈ s.retainedDirectories → other = id
  /-- The session of a turn is not cancelled. -/
  taken : ∀ i id held seen session, s.callers i = .running id (some held) seen →
    held.session = some session → ∀ other, (other, session) ∉ s.cancelled
  /-- What is held was retained by a turn that began after the last ending. -/
  notAgain : ∀ k id held, s.held k = some (id, held) → id ∉ s.ends.drop held.seen
  capped : (∀ i, s.callers i ≠ .capping) → s.live.length ≤ options.maxSessions

theorem Kept.owned {s : Registry} (h : Kept s) (hc : Capped options s) : Owned options s where
  sessions _ _ hnoted := h.sessions.owned hnoted
  directories _ _ hnoted := h.directories.owned hnoted
  destroyed _ _ _ hgone hnoted := h.directories.retired_key hgone hnoted
  taken i id held seen session hi hsession other := by
    refine h.sessions.apart (.inr i) id other session ?_
    show sessionOf (s.callers i).holding = _
    rw [hi]
    simp only [Phase.holding, sessionOf, Option.bind_some, hsession, Option.map_some]
  notAgain k id held hk := (h.seen k id held hk).2
  capped hnone := hc.resolve_left fun ⟨i, hi⟩ => hnone i hi

def brief (entry : String × OpenConversation) : String × Nat × Nat :=
  (entry.1, entry.2.directory, entry.2.seen)

/-- What `enforceSessionCap` leaves alone. -/
structure Quiet (s t : Registry) (i : Nat) : Prop where
  held : ∀ k, (t.held k).map brief = (s.held k).map brief
  noted : t.retainedDirectories = s.retainedDirectories
  destroyed : t.destroyed = s.destroyed
  ends : t.ends = s.ends
  callers : ∀ j, (t.callers j).holding = if j = i then none else (s.callers j).holding

theorem holding_put (s : Registry) {i : Nat} {phase : Phase} (hphase : phase.holding = none)
    (j : Nat) : ((s.put i phase).callers j).holding =
      if j = i then none else (s.callers j).holding := by
  split
  · rename_i h
    rw [h, put_self, hphase]
  · rename_i h
    show (Function.update s.callers i phase j).holding = _
    rw [Function.update_of_ne h]

theorem held_closeSession (s : Registry) (k l : Nat) :
    ((s.closeSession k).held l).map brief = (s.held l).map brief := by
  unfold Registry.closeSession
  split
  · rfl
  · rename_i id held hk
    by_cases hlk : l = k
    · subst hlk
      have hset : Registry.held { s.cancel id held with
          slots := s.slots.set l (some (id, { held with session := none })) } l =
            some (id, { held with session := none }) :=
        held_iff.mpr (List.getElem?_set_self (held_lt hk))
      rw [hset, hk]
      rfl
    · have hset : Registry.held { s.cancel id held with
          slots := s.slots.set k (some (id, { held with session := none })) } l = s.held l :=
        congrArg Option.join (List.getElem?_set_ne (Ne.symm hlk))
      rw [hset]

theorem quiet_enforceSessionCap (s : Registry) (i : Nat) :
    Quiet s (enforceSessionCap options s i) i := by
  have hout : Quiet s (s.put i .outside) i :=
    ⟨fun _ => rfl, rfl, rfl, rfl, holding_put s rfl⟩
  unfold enforceSessionCap
  dsimp only
  split
  · exact hout
  · rename_i oldest _
    split
    · exact hout
    · have hcallers := closeSession_callers s oldest.1
      refine ⟨held_closeSession s oldest.1, ?_, ?_, ?_, fun j => ?_⟩
      · show (s.closeSession oldest.1).retainedDirectories = _
        unfold Registry.closeSession
        split <;> rfl
      · show (s.closeSession oldest.1).destroyed = _
        unfold Registry.closeSession
        split <;> rfl
      · show (s.closeSession oldest.1).ends = _
        unfold Registry.closeSession
        split <;> rfl
      · rw [holding_put (s.closeSession oldest.1) rfl, hcallers]

theorem not_owned_of_found {s landed : Registry} {i k : Nat} {id : String} {seen : Nat}
    {conversation : OpenConversation} (hlands : Lands s landed i id seen conversation)
    (h : Kept s) (hfind : s.find id = some k) :
    ¬Owned options (retain options landed i id conversation) := by
  intro howned
  obtain ⟨old, hold⟩ := find_some hfind
  have hslots : landed.held = s.held := by
    funext l
    exact congrArg (fun slots => (slots[l]?).join) hlands.slots
  have holdAt : landed.held k = some (id, old) := hslots ▸ hold
  have hset : landed.set id conversation =
      { landed with slots := landed.slots.set k (some (id, conversation)) } := by
    simp only [Registry.set, Registry.find, hlands.slots]
    rw [show s.slots.findIdx? _ = some k from hfind]
  have hquiet : Quiet _ (retain options landed i id conversation) i :=
    quiet_enforceSessionCap _ i
  have hnoted : (id, old.directory) ∈
      (retain options landed i id conversation).retainedDirectories := by
    rw [hquiet.noted]
    refine List.mem_cons_of_mem _ ?_
    rw [hset]
    show _ ∈ landed.retainedDirectories
    rw [hlands.noted]
    exact h.noted k id old hold
  have hentry : (directoryOf ∘ landed.entryAt) (.inl k) = some (id, old.directory) :=
    congrArg directoryOf holdAt
  have hown : (directoryOf ∘ landed.entryAt) (.inr i) = some (id, conversation.directory) := by
    show directoryOf (landed.callers i).holding = _
    rw [hlands.callers]
    rfl
  rcases howned.directories id old.directory hnoted with ⟨p, hp, -⟩ | hgone
  · cases p with
    | inl l =>
      have hbrief := hquiet.held l
      obtain ⟨⟨key, found⟩, hfound, hkey⟩ := Option.map_eq_some_iff.mp hp
      obtain ⟨rfl, hdirectory⟩ := Prod.mk.inj hkey
      rw [show (retain options landed i key conversation).held l = some (key, found) from hfound]
        at hbrief
      obtain ⟨⟨other, before⟩, hbefore, hsame⟩ := Option.map_eq_some_iff.mp hbrief.symm
      obtain ⟨rfl, hsame⟩ := Prod.mk.inj hsame
      have hdirectory' : before.directory = old.directory :=
        (Prod.mk.inj hsame).1.trans hdirectory
      have hbefore : (landed.set other conversation).held l = some (other, before) := hbefore
      rw [hset] at hbefore
      rcases held_set hbefore with ⟨rfl, hnew⟩ | ⟨hlk, hl⟩
      · obtain ⟨-, rfl⟩ := Prod.mk.inj (Option.some.inj hnew)
        rw [hdirectory'] at hown
        exact absurd (hlands.kept.directories.unique _ _ _ _ _ hown hentry) (by simp)
      · have hlentry : (directoryOf ∘ landed.entryAt) (.inl l) = some (other, old.directory) := by
          rw [← hdirectory']
          exact congrArg directoryOf hl
        exact hlk (Sum.inl.inj (hlands.kept.directories.unique _ _ _ _ _ hlentry hentry))
    | inr j =>
      have hj := hquiet.callers j
      have hp : directoryOf ((retain options landed i id conversation).callers j).holding =
        some (id, old.directory) := hp
      rw [hj] at hp
      split at hp
      · cases hp
      · rename_i hji
        have hjentry : (directoryOf ∘ landed.entryAt) (.inr j) = some (id, old.directory) := by
          rw [← hp, holding_put _ rfl, if_neg hji, hset]
          rfl
        exact absurd (hlands.kept.directories.unique _ _ _ _ _ hjentry hentry) (by simp)
  · rw [hquiet.destroyed] at hgone
    have hgone : (id, old.directory) ∈ (landed.set id conversation).destroyed := hgone
    rw [hset] at hgone
    exact hlands.kept.directories.apart _ _ _ _ hentry hgone

theorem not_owned_of_ended {s landed : Registry} {i : Nat} {id : String} {seen : Nat}
    {conversation : OpenConversation} (hlands : Lands s landed i id seen conversation)
    (hfind : s.find id = none) (hended : id ∈ s.ends.drop seen) :
    ¬Owned options (retain options landed i id conversation) := by
  intro howned
  have hset : landed.set id conversation =
      { landed with slots := landed.slots ++ [some (id, conversation)] } := by
    simp only [Registry.set, Registry.find, hlands.slots]
    rw [show s.slots.findIdx? _ = none from hfind]
  have hquiet : Quiet _ (retain options landed i id conversation) i :=
    quiet_enforceSessionCap _ i
  have hends : (retain options landed i id conversation).ends = s.ends := by
    rw [hquiet.ends]
    show (landed.set id conversation).ends = _
    rw [hset]
    exact hlands.ends
  have hnew : (landed.set id conversation).held landed.slots.length = some (id, conversation) := by
    rw [hset]
    simp [Registry.held]
  have hbrief : ((retain options landed i id conversation).held landed.slots.length).map brief =
      ((landed.set id conversation).held landed.slots.length).map brief := hquiet.held _
  rw [hnew] at hbrief
  obtain ⟨⟨key, found⟩, hfound, hkey⟩ := Option.map_eq_some_iff.mp hbrief
  obtain ⟨rfl, hkey⟩ := Prod.mk.inj hkey
  have hseen : found.seen = seen := (Prod.mk.inj hkey).2.trans hlands.seen
  refine howned.notAgain _ _ _ hfound ?_
  rw [hends, hseen]
  exact hended

/-- **An open conversation is owned once and none is lost, in every state a run reaches,
exactly when no turn of the run retains over a conversation that is held or after an ending
that came since it began.** -/
theorem conversations_owned_iff {events : List Event} {s : Registry}
    (h : run (step options) {} events = some s) :
    Throughout (step options) (fun s e => ∀ t, step options s e = some t → Owned options t) {}
      events ↔ Throughout (step options) Clear {} events := by
  refine throughout_iff_of_inv (fun s e t => kept_step) ?_
    ⟨kept_init, .inr (Nat.zero_le _)⟩ h
  rintro s e t ⟨hkept, hcapped⟩ hstep
  constructor
  · intro howned
    have howned := howned t hstep
    cases e with
    | retain i how =>
      obtain ⟨id, resumed, seen, conversation, landed, hi, hlands, rfl⟩ := step_retain hkept hstep
      simp only [Clear, MayRetain, hi]
      cases hfind : s.find id with
      | some k => exact absurd howned (not_owned_of_found hlands hkept hfind)
      | none => exact ⟨rfl, fun hended => not_owned_of_ended hlands hfind hended howned⟩
    | _ => trivial
  · intro hclear u hu
    obtain rfl := Option.some.inj (hstep.symm.trans hu)
    obtain ⟨hkept, hcapped⟩ := kept_step ⟨hkept, hcapped⟩ hclear hstep
    exact hkept.owned hcapped

end

/-! ## Two turns of one conversation -/

/-- A turn lands, the next resumes it, is parked, and the conversation is ended. -/
def oneAfterTheOther : List Event :=
  [.take 0 "c", .retain 0 (.landed true 1), .take 1 "c", .retain 1 .parked, .endConversation 2 "c",
    .go 2 false, .go 2 false, .go 2 false]

theorem conversations_owned_in_turn :
    Throughout (step ⟨1000, 4⟩) (fun s e => ∀ t, step ⟨1000, 4⟩ s e = some t →
      Owned ⟨1000, 4⟩ t) {} oneAfterTheOther :=
  (conversations_owned_iff (show run (step ⟨1000, 4⟩) {} oneAfterTheOther = some _ from rfl)).mpr
    (by decide)

def overlapping : List Event :=
  [.take 0 "c", .take 1 "c", .retain 0 (.landed true 1), .retain 1 (.landed true 2)]

/-- A conversation is ended while a turn of it runs. -/
def endedMeanwhile : List Event :=
  [.take 0 "c", .endConversation 1 "c", .go 1 false, .retain 0 (.landed true 1)]

/-- What the first turn retained is nobody's, and not gone; and what was ended is held again. -/
theorem overlapping_loses :
    (∃ s, run (step ⟨1000, 4⟩) {} overlapping = some s ∧
      s.retainedDirectories = [("c", 1), ("c", 0)] ∧
      s.slots = [some ("c", ⟨some 1, 1, 2, 0⟩)] ∧ (∀ i, s.callers i = .outside) ∧
      s.cancelled = [] ∧ s.destroyed = [] ∧ ¬Owned ⟨1000, 4⟩ s) ∧
    ∃ s held, run (step ⟨1000, 4⟩) {} endedMeanwhile = some s ∧ s.held 0 = some ("c", held) ∧
      "c" ∈ s.ends.drop held.seen := by
  refine ⟨⟨_, rfl, rfl, rfl, ?_, rfl, rfl, ?_⟩, _, _, rfl, rfl, by decide⟩
  · rintro (_ | _ | i) <;> rfl
  · intro howned
    rcases howned.directories "c" 0 (by decide) with ⟨p, hp, -⟩ | hgone
    · rcases p with (_ | k) | (_ | _ | i)
      · revert hp
        decide
      · cases hp
      · cases hp
      · cases hp
      · cases hp
    · cases hgone

end AgenticGit.Coordinator.OpenConversations
