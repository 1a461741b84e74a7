import AgenticGit.Lib.Turns
import AgenticGit.Lib.Runs

/- Access to the worktrees of one mirror: `withWorktreeRead`, `withWorktreeWrite` and the
   retries of `create` (`workspace-manager/src/index.ts`).

   Each stretch of a caller between two `await`s is one event. A caller goes on at any event
   after what it awaits has settled; an operation, and the `rm` of `create`, may settle at any
   event and may fail.

   Correspondence (TypeScript ↔ Lean):
     `lock.exclusive`            ↔ `gates.length`: the promise after every gate so far
     `previous.then(() => gate)` ↔ `settled`: it resolves once all of them are released
     `lock.shared`               ↔ `shared`, the entries by number
     an entry's promise          ↔ `entries`, whether it was released
     where a caller stands       ↔ `Phase`

   What is proved:
     1. `kept_step` — every step keeps the invariant `Kept`.
     2. `teardown_alone` — **while a write runs nothing else does**, and somebody who waits
        can always go on, or somebody runs. -/
namespace AgenticGit.Workspace
open AgenticGit.Turns AgenticGit.Runs

/-! ## The callers -/

/-- What `withWorktreeRead` is called for. -/
inductive ReadCall where
  | read
  /-- `worktree add`, at this attempt. -/
  | create (attempt : Nat)
  deriving DecidableEq, Repr

/-- What `withWorktreeWrite` is called for. -/
inductive WriteCall where
  | destroy
  /-- The prune after a failed attempt, and whether that lost the race inside git. -/
  | prune (attempt : Nat) (lostTheRace : Bool)
  deriving DecidableEq, Repr

inductive Phase where
  | outside
  /-- `await admitted`. -/
  | waits (call : ReadCall) (admitted : Nat)
  /-- The operation of a read runs. -/
  | reading (call : ReadCall) (entry : Nat)
  /-- It has settled, before the `finally`. -/
  | readDone (call : ReadCall) (entry : Nat) (failed lostTheRace : Bool)
  /-- The rejected promise of `withWorktreeRead`. -/
  | rejected (attempt : Nat) (lostTheRace : Bool)
  /-- `await previous`. -/
  | queues (call : WriteCall) (turn : Nat)
  /-- `await Promise.allSettled(..)`, of the entries found in `shared`. -/
  | drains (call : WriteCall) (turn : Nat) (readers : List Nat)
  /-- The operation of a write runs. -/
  | writing (call : WriteCall) (turn : Nat)
  /-- It has settled, before the `finally`. -/
  | writeDone (call : WriteCall) (turn : Nat) (failed : Bool)
  /-- `await rm(workspacePath)`. -/
  | removes (attempt : Nat) (lostTheRace : Bool)
  deriving DecidableEq, Repr

namespace Phase

def turn : Phase → Option Nat
  | queues _ turn => some turn
  | drains _ turn _ => some turn
  | writing _ turn => some turn
  | writeDone _ turn _ => some turn
  | _ => none

def going : Phase → Bool
  | drains _ _ _ => true
  | writing _ _ => true
  | writeDone _ _ _ => true
  | _ => false

def entry : Phase → Option Nat
  | reading _ entry => some entry
  | readDone _ entry _ _ => some entry
  | _ => none

def deletes : Phase → Bool
  | writing _ _ => true
  | _ => false

def runs : Phase → Bool
  | reading _ _ => true
  | writing _ _ => true
  | _ => false

/-- A call stands at an `await` that is not its operation's. -/
def waiting : Phase → Bool
  | outside => false
  | reading _ _ => false
  | writing _ _ => false
  | _ => true

end Phase

/-- `WORKTREE_ADD_ATTEMPTS`. -/
def worktreeAddAttempts : Nat := 3

/-- Where a caller stands once its read is over: `create` catches a failure. -/
def ReadCall.next : ReadCall → Bool → Bool → Phase
  | .create attempt, true, lostTheRace => .rejected attempt lostTheRace
  | _, _, _ => .outside

/-- Where a caller stands once its write is over: `create` clears the directory. -/
def WriteCall.next : WriteCall → Bool → Phase
  | .prune attempt lostTheRace, false => .removes attempt lostTheRace
  | _, _ => .outside

/-! ## The lock -/

structure MirrorLock where
  /-- One gate for each write so far, and whether it was released. -/
  gates : List Bool := []
  /-- One entry for each read admitted so far, and whether it was released. -/
  entries : List Bool := []
  shared : List Nat := []
  callers : Nat → Phase := fun _ => .outside

def MirrorLock.put (s : MirrorLock) (i : Nat) (phase : Phase) : MirrorLock :=
  { s with callers := Function.update s.callers i phase }

/-- `withWorktreeRead` up to its first `await`. -/
def withWorktreeRead (s : MirrorLock) (i : Nat) (call : ReadCall) : MirrorLock :=
  s.put i (.waits call s.gates.length)

/-- `withWorktreeWrite` up to its first `await`. -/
def withWorktreeWrite (s : MirrorLock) (i : Nat) (call : WriteCall) : MirrorLock :=
  { s with gates := s.gates ++ [false] }.put i (.queues call s.gates.length)

/-- The promise published as `exclusive` when there were `n` gates has resolved. -/
def settled (gates : List Bool) (n : Nat) : Bool := (gates.take n).all id

/-- A caller arrives, or goes on; where what it awaits may fail, how that went. -/
inductive Event where
  | read (i : Nat)
  | create (i : Nat)
  | destroy (i : Nat)
  | go (i : Nat) (failed lostTheRace : Bool)
  deriving DecidableEq, Repr

/-- The next stretch of a caller, up to its next `await`. -/
def go (s : MirrorLock) (i : Nat) (failed lostTheRace : Bool) : Option MirrorLock :=
  match s.callers i with
  | .outside => none
  | .waits call admitted =>
    if settled s.gates admitted then
      if s.gates.length = admitted then
        some ({ s with
          entries := s.entries ++ [false]
          shared := s.shared ++ [s.entries.length] }.put i (.reading call s.entries.length))
      else some (withWorktreeRead s i call)
    else none
  | .reading call entry => some (s.put i (.readDone call entry failed lostTheRace))
  | .readDone call entry failed lostTheRace =>
    some ({ s with
      entries := s.entries.set entry true
      shared := s.shared.filter (· ≠ entry) }.put i (call.next failed lostTheRace))
  | .rejected attempt lostTheRace =>
    some (withWorktreeWrite s i (.prune attempt lostTheRace))
  | .queues call turn =>
    if settled s.gates turn then some (s.put i (.drains call turn s.shared)) else none
  | .drains call turn readers =>
    if readers.all (fun entry => s.entries[entry]? = some true) then
      some (s.put i (.writing call turn))
    else none
  | .writing call turn => some (s.put i (.writeDone call turn failed))
  | .writeDone call turn failed =>
    some ({ s with gates := s.gates.set turn true }.put i (call.next failed))
  | .removes attempt lostTheRace =>
    if failed || decide (worktreeAddAttempts ≤ attempt) || !lostTheRace then
      some (s.put i .outside)
    else some (withWorktreeRead s i (.create (attempt + 1)))

def step (s : MirrorLock) : Event → Option MirrorLock
  | .read i => if s.callers i = .outside then some (withWorktreeRead s i .read) else none
  | .create i => if s.callers i = .outside then some (withWorktreeRead s i (.create 1)) else none
  | .destroy i => if s.callers i = .outside then some (withWorktreeWrite s i .destroy) else none
  | .go i failed lostTheRace => go s i failed lostTheRace

/-! ## The invariant -/

theorem settled_iff (gates : List Bool) (n : Nat) :
    settled gates n = true ↔ ∀ t < n, t < gates.length → gates[t]? = some true := by
  unfold settled
  rw [List.all_eq_true]
  constructor
  · intro h t ht hlt
    have hmem : gates[t] ∈ gates.take n := by
      rw [List.mem_take_iff_getElem]
      exact ⟨t, by omega, rfl⟩
    rw [List.getElem?_eq_getElem hlt]
    exact congrArg some (h _ hmem)
  · intro h b hb
    obtain ⟨t, ht, rfl⟩ := List.mem_take_iff_getElem.mp hb
    have hgate := h t (by omega) (by omega)
    rw [List.getElem?_eq_getElem (by omega)] at hgate
    exact Option.some.inj hgate

def MirrorLock.Opened (s : MirrorLock) (entry : Nat) : Prop := s.entries[entry]? = some false

def Stands (s : MirrorLock) : Phase → Prop
  | .waits _ n => n ≤ s.gates.length
  | .drains _ _ readers => (∀ entry, s.Opened entry → entry ∈ readers) ∧
      ∀ entry ∈ readers, entry < s.entries.length
  | .writing _ _ => ∀ entry, ¬s.Opened entry
  | .writeDone _ _ _ => ∀ entry, ¬s.Opened entry
  | _ => True

structure Kept (s : MirrorLock) : Prop where
  queue : Orderly s.gates (fun i => (s.callers i).turn) (fun i => (s.callers i).going)
  readers : Owned s.entries (fun i => (s.callers i).entry)
  joined : ∀ entry, s.Opened entry → entry ∈ s.shared
  known : ∀ entry ∈ s.shared, entry < s.entries.length
  stands : ∀ i, Stands s (s.callers i)

theorem kept_init : Kept {} where
  queue := Orderly.empty
  readers := Owned.empty
  joined := by simp [MirrorLock.Opened]
  known := by simp
  stands _ := trivial

theorem phase_update {α : Type} (f : Phase → α) (callers : Nat → Phase) (i : Nat)
    (phase : Phase) : (fun j => f (Function.update callers i phase j)) =
      Function.update (fun j => f (callers j)) i (f phase) := by
  funext j
  by_cases h : j = i
  · rw [h, Function.update_self, Function.update_self]
  · rw [Function.update_of_ne h, Function.update_of_ne h]

theorem phase_same {α : Type} (f : Phase → α) {callers : Nat → Phase} {i : Nat} {value : α}
    (h : f (callers i) = value) :
    Function.update (fun j => f (callers j)) i value = fun j => f (callers j) := by
  rw [← h]
  exact Function.update_eq_self i _

variable {phase : Phase}

theorem forall_update {P : Phase → Prop} {callers : Nat → Phase} {i : Nat} (hnew : P phase)
    (hold : ∀ j, P (callers j)) (j : Nat) : P (Function.update callers i phase j) := by
  by_cases h : j = i
  · rw [h, Function.update_self]
    exact hnew
  · rw [Function.update_of_ne h]
    exact hold j

theorem Kept.unsettled {s : MirrorLock} (h : Kept s) {i turn : Nat}
    (hi : (s.callers i).turn = some turn) : settled s.gates s.gates.length = false := by
  have hgate := h.queue.held i turn hi
  have hlt := (List.getElem?_eq_some_iff.mp hgate).1
  rw [Bool.eq_false_iff, ne_eq, settled_iff]
  intro hall
  rw [hall turn hlt hlt] at hgate
  cases hgate

/-! ## One step -/

theorem Kept.move {s : MirrorLock} (h : Kept s) {i : Nat} (hturn : (s.callers i).turn = phase.turn)
    (hgoing : (s.callers i).going = phase.going) (hentry : (s.callers i).entry = phase.entry)
    (hstands : Stands s phase) : Kept (s.put i phase) where
  queue := by
    simp only [MirrorLock.put, phase_update, phase_same Phase.turn hturn,
      phase_same Phase.going hgoing]
    exact h.queue
  readers := by
    simp only [MirrorLock.put, phase_update, phase_same Phase.entry hentry]
    exact h.readers
  joined := h.joined
  known := h.known
  stands := forall_update hstands h.stands

theorem Kept.withRead {s : MirrorLock} (h : Kept s) {i : Nat} {call : ReadCall}
    (hturn : (s.callers i).turn = none) (hgoing : (s.callers i).going = false)
    (hentry : (s.callers i).entry = none) : Kept (withWorktreeRead s i call) :=
  h.move hturn hgoing hentry (Nat.le_refl _)

theorem Kept.admit {s : MirrorLock} (h : Kept s) {i : Nat} {call : ReadCall}
    (hgoing : (s.callers i).going = false) (hentry : (s.callers i).entry = none)
    (hsettled : settled s.gates s.gates.length = true) :
    Kept ({ s with
      entries := s.entries ++ [false]
      shared := s.shared ++ [s.entries.length] }.put i (.reading call s.entries.length)) := by
  have hnobody : ∀ j, (s.callers j).turn = none := by
    intro j
    cases hj : (s.callers j).turn with
    | none => rfl
    | some turn =>
      rw [h.unsettled hj] at hsettled
      cases hsettled
  have hopened : ∀ entry, (s.entries ++ [false])[entry]? = some false →
      s.Opened entry ∨ entry = s.entries.length := by
    intro entry hentry
    rcases Nat.lt_or_ge entry s.entries.length with hlt | hge
    · rw [List.getElem?_append_left hlt] at hentry
      exact .inl hentry
    · have hlength := (List.getElem?_eq_some_iff.mp hentry).1
      rw [List.length_append, List.length_singleton] at hlength
      exact .inr (by omega)
  constructor
  · have hqueue := h.queue
    rw [← phase_same Phase.turn (hnobody i), ← phase_same Phase.going hgoing] at hqueue
    simp only [MirrorLock.put, phase_update]
    exact hqueue
  · simp only [MirrorLock.put, phase_update]
    exact h.readers.push hentry
  · intro entry hentry
    rcases hopened entry hentry with hentry | rfl
    · exact List.mem_append_left _ (h.joined entry hentry)
    · exact List.mem_append_right _ (List.mem_singleton.mpr rfl)
  · intro entry hentry
    show entry < (s.entries ++ [false]).length
    rw [List.length_append, List.length_singleton]
    rcases List.mem_append.mp hentry with hentry | hentry
    · exact Nat.lt_succ_of_lt (h.known entry hentry)
    · rw [List.mem_singleton.mp hentry]
      exact Nat.lt_succ_self _
  · refine forall_update trivial fun j => ?_
    have hj := h.stands j
    have hturn := hnobody j
    cases hphase : s.callers j <;> rw [hphase] at hj hturn
    case waits => exact hj
    case drains => cases hturn
    case writing => cases hturn
    case writeDone => cases hturn
    all_goals trivial

def Phase.Free (phase : Phase) : Prop :=
  phase.turn = none ∧ phase.going = false ∧ phase.entry = none ∧ ∀ s, Stands s phase

theorem Kept.leave {s : MirrorLock} (h : Kept s) {i entry : Nat}
    (hi : (s.callers i).entry = some entry) (hturn : (s.callers i).turn = none)
    (hgoing : (s.callers i).going = false) (hfree : phase.Free) : Kept ({ s with
      entries := s.entries.set entry true
      shared := s.shared.filter (· ≠ entry) }.put i phase) := by
  obtain ⟨hturn', hgoing', hentry', hstands⟩ := hfree
  have hlt := (List.getElem?_eq_some_iff.mp (h.readers.held i entry hi)).1
  have hopened : ∀ other, (s.entries.set entry true)[other]? = some false →
      other ≠ entry ∧ s.Opened other := by
    intro other hother
    have hne : other ≠ entry := by
      rintro rfl
      rw [List.getElem?_set_self hlt] at hother
      cases hother
    rw [List.getElem?_set_ne hne.symm] at hother
    exact ⟨hne, hother⟩
  have hbelow : ∀ other, other < s.entries.length → other < (s.entries.set entry true).length := by
    intro other hother
    rw [List.length_set]
    exact hother
  constructor
  · simp only [MirrorLock.put, phase_update, hturn', hgoing', phase_same Phase.turn hturn,
      phase_same Phase.going hgoing]
    exact h.queue
  · simp only [MirrorLock.put, phase_update, hentry']
    exact h.readers.release hi
  · intro other hother
    obtain ⟨hne, hother⟩ := hopened other hother
    exact List.mem_filter.mpr ⟨h.joined other hother, decide_eq_true hne⟩
  · intro other hother
    exact hbelow other (h.known other (List.mem_filter.mp hother).1)
  · refine forall_update (hstands _) fun j => ?_
    have hj := h.stands j
    cases hphase : s.callers j <;> rw [hphase] at hj
    case waits => exact hj
    case drains =>
      exact ⟨fun other hother => hj.1 other (hopened other hother).2,
        fun other hother => hbelow other (hj.2 other hother)⟩
    case writing => exact fun other hother => hj other (hopened other hother).2
    case writeDone => exact fun other hother => hj other (hopened other hother).2
    all_goals trivial

theorem Stands.gates {s : MirrorLock} (h : Stands s phase) {gates : List Bool}
    (hle : s.gates.length ≤ gates.length) : Stands { s with gates } phase := by
  cases phase
  case waits => exact Nat.le_trans h hle
  all_goals exact h

theorem Kept.withWrite {s : MirrorLock} (h : Kept s) {i : Nat} {call : WriteCall}
    (hturn : (s.callers i).turn = none) (hgoing : (s.callers i).going = false)
    (hentry : (s.callers i).entry = none) : Kept (withWorktreeWrite s i call) where
  queue := by
    have hqueue := h.queue.arrive hturn
    rw [← phase_same Phase.going hgoing] at hqueue
    simp only [withWorktreeWrite, MirrorLock.put, phase_update]
    exact hqueue
  readers := by
    have hreaders := h.readers
    rw [← phase_same Phase.entry hentry] at hreaders
    simp only [withWorktreeWrite, MirrorLock.put, phase_update]
    exact hreaders
  joined := h.joined
  known := h.known
  stands := forall_update trivial fun j =>
    (h.stands j).gates (List.length_append ▸ Nat.le_add_right ..)

theorem Kept.start {s : MirrorLock} (h : Kept s) {i turn : Nat} {call : WriteCall}
    (hi : s.callers i = .queues call turn) (hsettled : settled s.gates turn = true) :
    Kept (s.put i (.drains call turn s.shared)) := by
  have hturn : (s.callers i).turn = some turn := by rw [hi]; rfl
  have hentry : (s.callers i).entry = none := by rw [hi]; rfl
  constructor
  · have hlt := (List.getElem?_eq_some_iff.mp (h.queue.held i turn hturn)).1
    have hcome : Come s.gates turn := by
      rcases Nat.eq_zero_or_pos turn with hzero | hpos
      · exact .inl hzero
      · exact .inr ((settled_iff _ _).mp hsettled (turn - 1) (by omega) (by omega))
    have hqueue := h.queue.start hturn hcome
    rw [← phase_same Phase.turn hturn] at hqueue
    simp only [MirrorLock.put, phase_update]
    exact hqueue
  · have hreaders := h.readers
    rw [← phase_same Phase.entry hentry] at hreaders
    simp only [MirrorLock.put, phase_update]
    exact hreaders
  · exact h.joined
  · exact h.known
  · exact forall_update ⟨h.joined, h.known⟩ h.stands

theorem Kept.finish {s : MirrorLock} (h : Kept s) {i turn : Nat}
    (hturn : (s.callers i).turn = some turn) (hgoing : (s.callers i).going = true)
    (hentry : (s.callers i).entry = none) (hfree : phase.Free) :
    Kept ({ s with gates := s.gates.set turn true }.put i phase) := by
  obtain ⟨hturn', hgoing', hentry', hstands⟩ := hfree
  constructor
  · simp only [MirrorLock.put, phase_update, hturn', hgoing']
    exact h.queue.giveBack hturn hgoing
  · simp only [MirrorLock.put, phase_update, hentry', phase_same Phase.entry hentry]
    exact h.readers
  · exact h.joined
  · exact h.known
  · exact forall_update (hstands _) fun j => (h.stands j).gates
      (Nat.le_of_eq (List.length_set ..).symm)

theorem readNext_free (call : ReadCall) (failed lostTheRace : Bool) :
    (call.next failed lostTheRace).Free := by
  cases call <;> cases failed <;> exact ⟨rfl, rfl, rfl, fun _ => trivial⟩

theorem writeNext_free (call : WriteCall) (failed : Bool) : (call.next failed).Free := by
  cases call <;> cases failed <;> exact ⟨rfl, rfl, rfl, fun _ => trivial⟩

/-- **Every stretch keeps the invariant.** -/
theorem kept_go {s t : MirrorLock} {i : Nat} {failed lostTheRace : Bool} (h : Kept s)
    (hstep : go s i failed lostTheRace = some t) : Kept t := by
  have hstands := h.stands i
  unfold go at hstep
  cases hi : s.callers i with
  | outside =>
    rw [hi] at hstep
    cases hstep
  | waits call admitted =>
    rw [hi] at hstep
    dsimp only at hstep
    split at hstep
    · rename_i hsettled
      split at hstep
      · rename_i hsame
        obtain rfl := Option.some.inj hstep
        exact h.admit (by rw [hi]; rfl) (by rw [hi]; rfl) (hsame ▸ hsettled)
      · obtain rfl := Option.some.inj hstep
        exact h.withRead (by rw [hi]; rfl) (by rw [hi]; rfl) (by rw [hi]; rfl)
    · cases hstep
  | reading call entry =>
    rw [hi] at hstep
    obtain rfl := Option.some.inj hstep
    exact h.move (by rw [hi]; rfl) (by rw [hi]; rfl) (by rw [hi]; rfl) trivial
  | readDone call entry failed lostTheRace =>
    rw [hi] at hstep
    obtain rfl := Option.some.inj hstep
    exact h.leave (by rw [hi]; rfl) (by rw [hi]; rfl) (by rw [hi]; rfl) (readNext_free ..)
  | rejected attempt lostTheRace =>
    rw [hi] at hstep
    obtain rfl := Option.some.inj hstep
    exact h.withWrite (by rw [hi]; rfl) (by rw [hi]; rfl) (by rw [hi]; rfl)
  | queues call turn =>
    rw [hi] at hstep
    dsimp only at hstep
    split at hstep
    · rename_i hsettled
      obtain rfl := Option.some.inj hstep
      exact h.start hi hsettled
    · cases hstep
  | drains call turn readers =>
    rw [hi] at hstep hstands
    dsimp only at hstep
    split at hstep
    · rename_i hreleased
      obtain rfl := Option.some.inj hstep
      refine h.move (by rw [hi]; rfl) (by rw [hi]; rfl) (by rw [hi]; rfl) ?_
      -- whoever is still open was found in `shared`, and has been waited for
      intro entry hopen
      have hentry := List.all_eq_true.mp hreleased entry (hstands.1 entry hopen)
      rw [show s.entries[entry]? = some false from hopen] at hentry
      cases of_decide_eq_true hentry
    · cases hstep
  | writing call turn =>
    rw [hi] at hstep hstands
    obtain rfl := Option.some.inj hstep
    exact h.move (by rw [hi]; rfl) (by rw [hi]; rfl) (by rw [hi]; rfl) hstands
  | writeDone call turn failed =>
    rw [hi] at hstep
    obtain rfl := Option.some.inj hstep
    exact h.finish (by rw [hi]; rfl) (by rw [hi]; rfl) (by rw [hi]; rfl) (writeNext_free ..)
  | removes attempt lostTheRace =>
    rw [hi] at hstep
    dsimp only at hstep
    split at hstep
    · obtain rfl := Option.some.inj hstep
      exact h.move (by rw [hi]; rfl) (by rw [hi]; rfl) (by rw [hi]; rfl) trivial
    · obtain rfl := Option.some.inj hstep
      exact h.withRead (by rw [hi]; rfl) (by rw [hi]; rfl) (by rw [hi]; rfl)

/-- **Every step keeps the invariant.** -/
theorem kept_step {s t : MirrorLock} {e : Event} (h : Kept s) (hstep : step s e = some t) :
    Kept t := by
  cases e with
  | read i =>
    obtain ⟨hi, hstep⟩ := Option.ite_none_right_eq_some.mp hstep
    obtain rfl := Option.some.inj hstep
    exact h.withRead (by rw [hi]; rfl) (by rw [hi]; rfl) (by rw [hi]; rfl)
  | create i =>
    obtain ⟨hi, hstep⟩ := Option.ite_none_right_eq_some.mp hstep
    obtain rfl := Option.some.inj hstep
    exact h.withRead (by rw [hi]; rfl) (by rw [hi]; rfl) (by rw [hi]; rfl)
  | destroy i =>
    obtain ⟨hi, hstep⟩ := Option.ite_none_right_eq_some.mp hstep
    obtain rfl := Option.some.inj hstep
    exact h.withWrite (by rw [hi]; rfl) (by rw [hi]; rfl) (by rw [hi]; rfl)
  | go i failed lostTheRace => exact kept_go h hstep

/-! ## Alone, and never stuck -/

theorem Kept.alone {s : MirrorLock} (h : Kept s) {i j : Nat}
    (hi : (s.callers i).deletes = true) (hj : (s.callers j).runs = true) : j = i := by
  have hstands := h.stands i
  cases hphase : s.callers i <;> rw [hphase] at hi <;> try cases hi
  rename_i call turn
  rw [hphase] at hstands
  cases hother : s.callers j <;> rw [hother] at hj <;> try cases hj
  · -- a read that runs has an entry, and a write starts once none is open
    rename_i entry
    exact absurd (h.readers.held j entry (by rw [hother]; rfl)) (hstands entry)
  · exact h.queue.alone (by rw [hother]; rfl) (by rw [hphase]; rfl)

/-- Calls wait, no operation runs and none of those that wait can go on. -/
structure Stuck (s : MirrorLock) : Prop where
  waiting : ∃ i, (s.callers i).waiting = true
  still : ∀ i, (s.callers i).runs = false
  blocked : ∀ i, (s.callers i).waiting = true → ∀ failed lostTheRace,
    go s i failed lostTheRace = none

theorem Kept.no_open {s : MirrorLock} (h : Kept s) (hstuck : Stuck s) (entry : Nat) :
    ¬s.Opened entry := by
  intro hopen
  obtain ⟨j, hj⟩ := h.readers.given entry hopen
  have hstill := hstuck.still j
  have hblocked := hstuck.blocked j
  cases hphase : s.callers j <;> rw [hphase] at hj hstill hblocked <;> try cases hj
  · cases hstill
  · have hgo := hblocked rfl false false
    simp only [go, hphase] at hgo
    cases hgo

theorem Kept.all_released {s : MirrorLock} (h : Kept s) (hstuck : Stuck s) (turn : Nat) :
    turn < s.gates.length → s.gates[turn]? = some true := by
  induction turn using Nat.strongRecOn with
  | ind turn ih =>
    intro hlt
    rcases hgate : s.gates[turn]? with _ | _ | _
    · exact absurd (List.getElem?_eq_none_iff.mp hgate) (Nat.not_le.mpr hlt)
    · obtain ⟨i, hi⟩ := h.queue.given turn hgate
      have hstands := h.stands i
      have hstill := hstuck.still i
      have hblocked := hstuck.blocked i
      cases hphase : s.callers i <;> rw [hphase] at hi hstands hstill hblocked <;> try cases hi
      · have hsettled := (settled_iff s.gates turn).mpr ih
        have hgo := hblocked rfl false false
        simp only [go, hphase, hsettled, if_true] at hgo
        cases hgo
      · rename_i readers
        have hreleased : readers.all (fun entry => s.entries[entry]? = some true) = true := by
          refine List.all_eq_true.mpr fun entry hentry => decide_eq_true ?_
          rcases hvalue : s.entries[entry]? with _ | _ | _
          · exact absurd (List.getElem?_eq_none_iff.mp hvalue)
              (Nat.not_le.mpr (hstands.2 entry hentry))
          · exact absurd hvalue (h.no_open hstuck entry)
          · rfl
        have hgo := hblocked rfl false false
        simp only [go, hphase, hreleased, if_true] at hgo
        cases hgo
      · cases hstill
      · have hgo := hblocked rfl false false
        simp only [go, hphase] at hgo
        cases hgo
    · rfl

/-- **No state with the invariant is stuck.** -/
theorem Kept.not_stuck {s : MirrorLock} (h : Kept s) : ¬Stuck s := by
  intro hstuck
  have hsettled : ∀ n, settled s.gates n = true := fun n =>
    (settled_iff s.gates n).mpr fun t _ hlt => h.all_released hstuck t hlt
  have hturn : ∀ i, (s.callers i).turn = none := by
    intro i
    cases hi : (s.callers i).turn with
    | none => rfl
    | some turn =>
      have hunsettled := h.unsettled hi
      rw [hsettled] at hunsettled
      cases hunsettled
  obtain ⟨i, hi⟩ := hstuck.waiting
  have hgo := hstuck.blocked i hi true false
  have hnone := hturn i
  unfold go at hgo
  cases hphase : s.callers i <;> rw [hphase] at hi hgo hnone <;> try cases hnone
  case outside => cases hi
  case waits =>
    simp only [hsettled, if_true] at hgo
    split at hgo <;> cases hgo
  case removes =>
    simp only [Bool.true_or, if_true] at hgo
    cases hgo
  all_goals cases hgo

/-- **A worktree deletion runs alone**, and calls that wait are never stuck: while the
operation of a write runs no other operation does, and in no state do calls wait while no
operation runs and none of them can go on. -/
theorem teardown_alone {events : List Event} {s : MirrorLock}
    (h : run step {} events = some s) :
    (∀ i j, (s.callers i).deletes = true → (s.callers j).runs = true → j = i) ∧ ¬Stuck s := by
  have hkept : Kept s := @run_keeps _ _ step Kept (fun _ _ _ => kept_step) _ _ _ kept_init h
  exact ⟨fun _ _ => hkept.alone, hkept.not_stuck⟩

/-- An attempt that fails while a teardown waits for it. -/
def teardownBesideCreate : List Event :=
  [.create 0, .go 0 false false, .destroy 1, .go 1 false false, .go 0 true true,
    .go 0 false false, .go 0 false false, .go 1 false false]

theorem teardown_alone_beside_create :
    let s := (run step {} teardownBesideCreate).getD {}
    (s.callers 0 = .queues (.prune 1 true) 1 ∧ s.callers 1 = .writing .destroy 0) ∧
      (∀ i j, (s.callers i).deletes = true → (s.callers j).runs = true → j = i) ∧ ¬Stuck s :=
  ⟨by decide, teardown_alone (show run step {} teardownBesideCreate = some _ from rfl)⟩

end AgenticGit.Workspace
