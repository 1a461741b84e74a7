import AgenticGit.Lib.OrderedMap
import AgenticGit.Lib.Runs

/- How a repository-wide holder is reached from the side that decides:
   `blanket-holders.ts`, in every order its callers and promises can take.

   Correspondence (TypeScript ↔ Lean):
     the three module-level maps      ↔ `Registry.holders`, `.asking`, `.answered`
     a session object                 ↔ `BlanketHolderSession`, `object` its identity
     a call of `session.declare()` and the promise made of it ↔ an entry of
       `declares`; its position is the promise's identity
     a call of `askBlanketHolderOnce` ↔ an entry of `calls`
     what runs between two awaits     ↔ one `Event`: the call itself, the
       settlement of `declare()`, the `.then` that records it, and what follows
       `await started` or `await running`

   What is proved: every answer is the session's own, one ask of a session is in
   flight at a time and no settled ask is left waiting (`blanket_answers_own`),
   in every run whose events find nothing of an earlier registration in the maps
   (`Current`); and that without this the answer of an earlier registration is
   given for a later one (`stale_answer_given`). -/
namespace AgenticGit.Coordinator.BlanketHolders
open AgenticGit.Runs

/-! ## The registry -/

structure HolderDeclaration where
  files : List String
  symbols : List String
  deriving DecidableEq, Repr

structure BlanketHolderSession where
  /-- Which object it is. -/
  object : Nat
  taskId : String
  repositoryId : String
  deriving DecidableEq, Repr

/-- Where the promise made of one `declare()` has got to. -/
inductive Outcome where
  | running
  /-- `declare()` has settled; a rejection reads as `undefined`. -/
  | settled (declaration : Option HolderDeclaration)
  /-- The answer is recorded and the shared promise resolved. -/
  | recorded (declaration : Option HolderDeclaration)
  deriving DecidableEq, Repr

structure Declaring where
  session : BlanketHolderSession
  outcome : Outcome
  deriving DecidableEq, Repr

inductive AskStatus where
  /-- Awaits the promise at a position; the one that started it clears the ask
  afterwards. -/
  | awaits (declare : Nat) (started : Bool)
  | resolved (declaration : Option HolderDeclaration)
  deriving DecidableEq, Repr

structure Ask where
  session : BlanketHolderSession
  status : AskStatus
  deriving DecidableEq, Repr

structure Registry where
  holders : OrderedMap String BlanketHolderSession
  asking : OrderedMap String Nat
  answered : OrderedMap String (Option HolderDeclaration)
  declares : List Declaring
  calls : List Ask

namespace Registry

def empty : Registry := ⟨.empty, .empty, .empty, [], []⟩

def registerBlanketHolder (registry : Registry) (session : BlanketHolderSession) : Registry :=
  { registry with holders := registry.holders.set session.taskId session }

/-- What `registerBlanketHolder` returns: identity-checked. -/
def deregister (registry : Registry) (session : BlanketHolderSession) : Registry :=
  if registry.holders.get? session.taskId = some session then
    { registry with
      holders := registry.holders.delete session.taskId
      asking := registry.asking.delete session.taskId
      answered := registry.answered.delete session.taskId }
  else registry

/-- Asks this holder, or joins the ask already running against it, up to its
first `await`. -/
def askBlanketHolderOnce (registry : Registry) (session : BlanketHolderSession) : Registry :=
  match registry.answered.get? session.taskId with
  | some declaration =>
    { registry with calls := registry.calls ++ [⟨session, .resolved declaration⟩] }
  | none =>
    match registry.asking.get? session.taskId with
    | some running => { registry with calls := registry.calls ++ [⟨session, .awaits running false⟩] }
    | none =>
      let started := registry.declares.length
      { registry with
        asking := registry.asking.set session.taskId started
        declares := registry.declares ++ [⟨session, .running⟩]
        calls := registry.calls ++ [⟨session, .awaits started true⟩] }

/-- `.catch(() => undefined)`. -/
def caught : Except String (Option HolderDeclaration) → Option HolderDeclaration
  | .ok declaration => declaration
  | .error _ => none

/-- `declare()` settles. -/
def settle (registry : Registry) (i : Nat)
    (result : Except String (Option HolderDeclaration)) : Option Registry :=
  match registry.declares[i]? with
  | some ⟨session, .running⟩ =>
    some { registry with declares := registry.declares.set i ⟨session, .settled (caught result)⟩ }
  | _ => none

/-- The `.then`: recorded when it settles, whoever still waits for it. -/
def record (registry : Registry) (i : Nat) : Option Registry :=
  match registry.declares[i]? with
  | some ⟨session, .settled declaration⟩ =>
    some { registry with
      answered := registry.answered.set session.taskId declaration
      declares := registry.declares.set i ⟨session, .recorded declaration⟩ }
  | _ => none

/-- What follows the `await` of a caller. -/
def resume (registry : Registry) (call : Nat) : Option Registry :=
  match registry.calls[call]? with
  | some ⟨session, .awaits i started⟩ =>
    match registry.declares[i]? with
    | some ⟨_, .recorded declaration⟩ =>
      some { registry with
        asking :=
          if started ∧ registry.asking.get? session.taskId = some i then
            registry.asking.delete session.taskId
          else registry.asking
        calls := registry.calls.set call ⟨session, .resolved declaration⟩ }
    | _ => none
  | _ => none

def blanketHolderSession (registry : Registry) (taskId : String) (repositoryId : Option String) :
    Option BlanketHolderSession :=
  match registry.holders.get? taskId with
  | none => none
  | some session =>
    if repositoryId.any (session.repositoryId ≠ ·) then none else some session

end Registry

inductive Event where
  | register (session : BlanketHolderSession)
  | deregister (session : BlanketHolderSession)
  | ask (session : BlanketHolderSession)
  | settle (declare : Nat) (result : Except String (Option HolderDeclaration))
  | record (declare : Nat)
  | resume (call : Nat)

open Registry in
def step (registry : Registry) : Event → Option Registry
  | .register session => some (registry.registerBlanketHolder session)
  | .deregister session => some (registry.deregister session)
  | .ask session => some (registry.askBlanketHolderOnce session)
  | .settle i result => registry.settle i result
  | .record i => registry.record i
  | .resume call => registry.resume call

/-! ## What is claimed of a state -/

def Outcome.isRunning : Outcome → Bool
  | .running => true
  | _ => false

def Outcome.answer : Outcome → Option (Option HolderDeclaration)
  | .running => none
  | .settled declaration => some declaration
  | .recorded declaration => some declaration

/-- A resolved ask has an answer its own session's `declare()` gave, or the
answer for no holder once the session is gone. -/
def AnsweredOwn (registry : Registry) : Prop :=
  ∀ call ∈ registry.calls, ∀ declaration, call.status = .resolved declaration →
    (∃ d ∈ registry.declares, d.session = call.session ∧ d.outcome.answer = some declaration) ∨
      (declaration = none ∧
        registry.holders.get? call.session.taskId ≠ some call.session)

/-- At most one `declare()` of a session has not settled. -/
def OneInFlight (registry : Registry) : Prop :=
  ∀ (i j : Nat) (d e : Declaring), registry.declares[i]? = some d → registry.declares[j]? = some e →
    d.outcome.isRunning = true → e.outcome.isRunning = true → d.session = e.session → i = j

/-- The continuations of settled promises, which run without anything else
happening. -/
def Continuation : Event → Prop
  | .record _ => True
  | .resume _ => True
  | _ => False

/-- An ask whose `declare()` has settled is resolved by the continuations that
are due. -/
def SettledAsksResolve (registry : Registry) : Prop :=
  ∀ (call i : Nat) (ask : Ask) (d : Declaring) (started : Bool), registry.calls[call]? = some ask →
    ask.status = .awaits i started → registry.declares[i]? = some d →
    d.outcome.isRunning = false →
    ∃ due, (∀ e ∈ due, Continuation e) ∧ ∃ registry' declaration,
      run step registry due = some registry' ∧
        registry'.calls[call]? = some ⟨ask.session, .resolved declaration⟩

/-! ## The condition -/

/-- The event finds nothing of another registration in the maps: a session is
registered where no ask or answer is kept for its task and none of its own is in
flight, an ask goes to the session that is registered, and what a `declare()`
answered is recorded while its session is still the one registered. -/
def Current (registry : Registry) : Event → Prop
  | .register session =>
    registry.asking.get? session.taskId = none ∧ registry.answered.get? session.taskId = none ∧
      ∀ d ∈ registry.declares, d.session = session → d.outcome.isRunning = false
  | .ask session => registry.holders.get? session.taskId = some session
  | .record i => ∀ d ∈ registry.declares[i]?,
      registry.holders.get? d.session.taskId = some d.session
  | _ => True

instance (registry : Registry) : DecidablePred (Current registry) := fun event =>
  match event with
  | .register session => inferInstanceAs (Decidable (registry.asking.get? session.taskId = none ∧
      registry.answered.get? session.taskId = none ∧
      ∀ d ∈ registry.declares, d.session = session → d.outcome.isRunning = false))
  | .ask session =>
    inferInstanceAs (Decidable (registry.holders.get? session.taskId = some session))
  | .record i => inferInstanceAs (Decidable (∀ d ∈ registry.declares[i]?,
      registry.holders.get? d.session.taskId = some d.session))
  | .deregister _ => isTrue trivial
  | .settle _ _ => isTrue trivial
  | .resume _ => isTrue trivial

/-! ## The invariant -/

/-- What is kept for a task belongs to the session registered for it. -/
structure Kept (registry : Registry) : Prop where
  holder : ∀ taskId session, registry.holders.get? taskId = some session →
    session.taskId = taskId
  answered : ∀ taskId declaration, registry.answered.get? taskId = some declaration →
    ∃ (i : Nat) (session : BlanketHolderSession), registry.holders.get? taskId = some session ∧
      registry.declares[i]? = some ⟨session, .recorded declaration⟩
  asking : ∀ taskId i, registry.asking.get? taskId = some i →
    ∃ session outcome, registry.holders.get? taskId = some session ∧
      registry.declares[i]? = some ⟨session, outcome⟩
  running : ∀ (i : Nat) (session : BlanketHolderSession),
    registry.declares[i]? = some ⟨session, .running⟩ →
    registry.holders.get? session.taskId = some session →
    registry.asking.get? session.taskId = some i
  one : ∀ (i j : Nat) (session : BlanketHolderSession),
    registry.declares[i]? = some ⟨session, .running⟩ →
    registry.declares[j]? = some ⟨session, .running⟩ → i = j
  awaits : ∀ ask ∈ registry.calls, ∀ i started, ask.status = .awaits i started →
    ∃ outcome, registry.declares[i]? = some ⟨ask.session, outcome⟩
  resolved : ∀ ask ∈ registry.calls, ∀ declaration, ask.status = .resolved declaration →
    ∃ i : Nat, registry.declares[i]? = some ⟨ask.session, .recorded declaration⟩

theorem kept_empty : Kept .empty where
  holder := by simp [Registry.empty]
  answered := by simp [Registry.empty]
  asking := by simp [Registry.empty]
  running := by simp [Registry.empty]
  one := by simp [Registry.empty]
  awaits := by simp [Registry.empty]
  resolved := by simp [Registry.empty]

namespace Kept

variable {registry registry' : Registry}

variable {session : BlanketHolderSession}

theorem register (h : Kept registry) (hc : Current registry (.register session)) :
    Kept (registry.registerBlanketHolder session) := by
  obtain ⟨hasking, hanswered, hrunning⟩ := hc
  -- what is kept is kept for other tasks, whose holders stay
  have others {taskId : String} (hne : taskId ≠ session.taskId) :
      (registry.holders.set session.taskId session).get? taskId =
        registry.holders.get? taskId := by
    rw [OrderedMap.get?_set, if_neg hne]
  have here : (registry.holders.set session.taskId session).get? session.taskId = some session := by
    rw [OrderedMap.get?_set, if_pos rfl]
  constructor
  · intro taskId holder hh
    by_cases ht : taskId = session.taskId
    · subst ht
      obtain rfl := Option.some.inj (here.symm.trans hh)
      rfl
    · exact h.holder taskId holder ((others ht).symm.trans hh)
  · intro taskId declaration ha
    have ht : taskId ≠ session.taskId := by
      rintro rfl
      exact absurd (hanswered.symm.trans ha) (by simp)
    obtain ⟨i, holder, hh, hd⟩ := h.answered taskId declaration ha
    exact ⟨i, holder, (others ht).trans hh, hd⟩
  · intro taskId i ha
    have ht : taskId ≠ session.taskId := by
      rintro rfl
      exact absurd (hasking.symm.trans ha) (by simp)
    obtain ⟨holder, outcome, hh, hd⟩ := h.asking taskId i ha
    exact ⟨holder, outcome, (others ht).trans hh, hd⟩
  · intro i s hd hh
    by_cases ht : s.taskId = session.taskId
    · rw [ht] at hh
      obtain rfl := Option.some.inj (here.symm.trans hh)
      exact absurd (hrunning _ (List.mem_of_getElem? hd) rfl) (by simp [Outcome.isRunning])
    · exact h.running i s hd ((others ht).symm.trans hh)
  · exact h.one
  · exact h.awaits
  · exact h.resolved

theorem deregister (h : Kept registry) (session : BlanketHolderSession) :
    Kept (registry.deregister session) := by
  unfold Registry.deregister
  split
  · rename_i hs
    -- everything kept for the task goes with its holder
    have still {α : Type} {m : OrderedMap String α} {taskId : String} {a : α}
        (hm : (m.delete session.taskId).get? taskId = some a) :
        taskId ≠ session.taskId ∧ m.get? taskId = some a := by
      rw [OrderedMap.get?_delete] at hm
      split at hm
      · cases hm
      · rename_i ht
        exact ⟨ht, hm⟩
    have kept {α : Type} {m : OrderedMap String α} {taskId : String}
        (ht : taskId ≠ session.taskId) :
        (m.delete session.taskId).get? taskId = m.get? taskId := by
      rw [OrderedMap.get?_delete, if_neg ht]
    constructor
    · intro taskId holder hh
      exact h.holder taskId holder (still hh).2
    · intro taskId declaration ha
      obtain ⟨ht, ha⟩ := still ha
      obtain ⟨i, holder, hh, hd⟩ := h.answered taskId declaration ha
      exact ⟨i, holder, (kept ht).trans hh, hd⟩
    · intro taskId i ha
      obtain ⟨ht, ha⟩ := still ha
      obtain ⟨holder, outcome, hh, hd⟩ := h.asking taskId i ha
      exact ⟨holder, outcome, (kept ht).trans hh, hd⟩
    · intro i s hd hh
      obtain ⟨ht, hh⟩ := still hh
      exact (kept ht).trans (h.running i s hd hh)
    · exact h.one
    · exact h.awaits
    · exact h.resolved
  · exact h

/-- One more call, which waits for a promise of its own session or has an
answer its own session gave. -/
theorem addCall (h : Kept registry) {ask : Ask}
    (hawaits : ∀ i started, ask.status = .awaits i started →
      ∃ outcome, registry.declares[i]? = some ⟨ask.session, outcome⟩)
    (hresolved : ∀ declaration, ask.status = .resolved declaration →
      ∃ i : Nat, registry.declares[i]? = some ⟨ask.session, .recorded declaration⟩) :
    Kept { registry with calls := registry.calls ++ [ask] } := by
  refine ⟨h.holder, h.answered, h.asking, h.running, h.one, ?_, ?_⟩
  · intro ask' hm i started hs
    rcases List.mem_append.mp hm with hm | hm
    · exact h.awaits ask' hm i started hs
    · obtain rfl := List.mem_singleton.mp hm
      exact hawaits i started hs
  · intro ask' hm declaration hs
    rcases List.mem_append.mp hm with hm | hm
    · exact h.resolved ask' hm declaration hs
    · obtain rfl := List.mem_singleton.mp hm
      exact hresolved declaration hs

theorem getElem?_snoc {α : Type} {xs : List α} {x y : α} {i : Nat}
    (h : (xs ++ [x])[i]? = some y) : xs[i]? = some y ∨ (i = xs.length ∧ y = x) := by
  rw [List.getElem?_append] at h
  split at h
  · exact .inl h
  · obtain ⟨hlt, h⟩ := List.getElem?_eq_some_iff.mp h
    have hlt' : i - xs.length < 1 := hlt
    have hi : i = xs.length := by omega
    subst hi
    simp only [Nat.sub_self, List.getElem_cons_zero] at h
    exact .inr ⟨rfl, h.symm⟩

theorem getElem?_old {α : Type} {xs : List α} {x y : α} {i : Nat} (h : xs[i]? = some y) :
    (xs ++ [x])[i]? = some y := by
  rw [List.getElem?_append_left (List.getElem?_eq_some_iff.mp h).1]
  exact h

theorem start (h : Kept registry) (hholder : registry.holders.get? session.taskId = some session)
    (hr : registry.asking.get? session.taskId = none) : Kept { registry with
      asking := registry.asking.set session.taskId registry.declares.length
      declares := registry.declares ++ [⟨session, .running⟩] } := by
  have idle {i : Nat} (hd : registry.declares[i]? = some ⟨session, .running⟩) : False :=
    absurd (hr.symm.trans (h.running i session hd hholder)) (by simp)
  constructor
  · exact h.holder
  · intro taskId declaration ha
    obtain ⟨i, holder, hh, hd⟩ := h.answered taskId declaration ha
    exact ⟨i, holder, hh, getElem?_old hd⟩
  · intro taskId i ha
    simp only [OrderedMap.get?_set] at ha
    split at ha
    · rename_i ht
      obtain rfl := Option.some.inj ha
      exact ⟨session, .running, ht ▸ hholder, by simp⟩
    · obtain ⟨holder, outcome, hh, hd⟩ := h.asking taskId i ha
      exact ⟨holder, outcome, hh, getElem?_old hd⟩
  · intro i s hd hh
    simp only [OrderedMap.get?_set]
    rcases getElem?_snoc hd with hold | ⟨rfl, hnew⟩
    · split
      · rename_i ht
        rw [ht] at hh
        obtain rfl := Option.some.inj (hholder.symm.trans hh)
        exact (idle hold).elim
      · exact h.running i s hold hh
    · obtain ⟨rfl, -⟩ := Declaring.mk.inj hnew
      rw [if_pos rfl]
  · intro i j s hi hj
    rcases getElem?_snoc hi with hold | ⟨rfl, hnew⟩
    · rcases getElem?_snoc hj with hold' | ⟨rfl, hnew⟩
      · exact h.one i j s hold hold'
      · obtain ⟨rfl, -⟩ := Declaring.mk.inj hnew
        exact (idle hold).elim
    · obtain ⟨rfl, -⟩ := Declaring.mk.inj hnew
      rcases getElem?_snoc hj with hold | ⟨rfl, -⟩
      · exact (idle hold).elim
      · rfl
  · intro ask hm i started hs
    obtain ⟨outcome, hd⟩ := h.awaits ask hm i started hs
    exact ⟨outcome, getElem?_old hd⟩
  · intro ask hm declaration hs
    obtain ⟨i, hd⟩ := h.resolved ask hm declaration hs
    exact ⟨i, getElem?_old hd⟩

theorem ask (h : Kept registry) (hc : Current registry (.ask session)) :
    Kept (registry.askBlanketHolderOnce session) := by
  have hholder : registry.holders.get? session.taskId = some session := hc
  unfold Registry.askBlanketHolderOnce
  cases ha : registry.answered.get? session.taskId with
  | some declaration =>
    obtain ⟨i, holder, hh, hd⟩ := h.answered _ _ ha
    obtain rfl := Option.some.inj (hholder.symm.trans hh)
    apply h.addCall
    · intro _ _ hs
      cases hs
    · intro _ hs
      obtain rfl := AskStatus.resolved.inj hs
      exact ⟨i, hd⟩
  | none =>
    cases hr : registry.asking.get? session.taskId with
    | some running =>
      obtain ⟨holder, outcome, hh, hd⟩ := h.asking _ _ hr
      obtain rfl := Option.some.inj (hholder.symm.trans hh)
      apply h.addCall
      · intro _ _ hs
        obtain ⟨rfl, -⟩ := AskStatus.awaits.inj hs
        exact ⟨outcome, hd⟩
      · intro _ hs
        cases hs
    | none =>
      apply (h.start hholder hr).addCall
      · intro _ _ hs
        obtain ⟨rfl, -⟩ := AskStatus.awaits.inj hs
        exact ⟨.running, by simp⟩
      · intro _ hs
        cases hs

theorem advance (h : Kept registry) {i : Nat} {outcome outcome' : Outcome}
    (hi : registry.declares[i]? = some ⟨session, outcome⟩)
    (hold : ∀ declaration, outcome ≠ .recorded declaration) (hnew : outcome' ≠ .running) :
    Kept { registry with declares := registry.declares.set i ⟨session, outcome'⟩ } := by
  have hlt := (List.getElem?_eq_some_iff.mp hi).1
  have same {j : Nat} (hj : j ≠ i) :
      (registry.declares.set i ⟨session, outcome'⟩)[j]? = registry.declares[j]? :=
    List.getElem?_set_ne hj.symm
  have there : (registry.declares.set i ⟨session, outcome'⟩)[i]? = some ⟨session, outcome'⟩ :=
    List.getElem?_set_self hlt
  have recorded {j : Nat} {s : BlanketHolderSession} {declaration : Option HolderDeclaration}
      (hj : registry.declares[j]? = some ⟨s, .recorded declaration⟩) :
      (registry.declares.set i ⟨session, outcome'⟩)[j]? = some ⟨s, .recorded declaration⟩ := by
    have hne : j ≠ i := by
      rintro rfl
      obtain ⟨-, ho⟩ := Declaring.mk.inj (Option.some.inj (hi.symm.trans hj))
      exact hold declaration ho
    rw [same hne, hj]
  have session_kept {j : Nat} {s : BlanketHolderSession} {o : Outcome}
      (hj : registry.declares[j]? = some ⟨s, o⟩) :
      ∃ o', (registry.declares.set i ⟨session, outcome'⟩)[j]? = some ⟨s, o'⟩ := by
    by_cases hne : j = i
    · subst hne
      obtain ⟨rfl, -⟩ := Declaring.mk.inj (Option.some.inj (hi.symm.trans hj))
      exact ⟨outcome', there⟩
    · exact ⟨o, (same hne).trans hj⟩
  have running {j : Nat} {s : BlanketHolderSession}
      (hj : (registry.declares.set i ⟨session, outcome'⟩)[j]? = some ⟨s, .running⟩) :
      registry.declares[j]? = some ⟨s, .running⟩ := by
    have hne : j ≠ i := by
      rintro rfl
      obtain ⟨-, ho⟩ := Declaring.mk.inj (Option.some.inj (there.symm.trans hj))
      exact hnew ho
    rwa [same hne] at hj
  constructor
  · exact h.holder
  · intro taskId declaration ha
    obtain ⟨j, holder, hh, hd⟩ := h.answered taskId declaration ha
    exact ⟨j, holder, hh, recorded hd⟩
  · intro taskId j ha
    obtain ⟨holder, o, hh, hd⟩ := h.asking taskId j ha
    obtain ⟨o', hd⟩ := session_kept hd
    exact ⟨holder, o', hh, hd⟩
  · intro j s hd hh
    exact h.running j s (running hd) hh
  · intro j k s hj hk
    exact h.one j k s (running hj) (running hk)
  · intro ask hm j started hs
    obtain ⟨o, hd⟩ := h.awaits ask hm j started hs
    exact session_kept hd
  · intro ask hm declaration hs
    obtain ⟨j, hd⟩ := h.resolved ask hm declaration hs
    exact ⟨j, recorded hd⟩

theorem settle (h : Kept registry) {i : Nat}
    {result : Except String (Option HolderDeclaration)}
    (hs : registry.settle i result = some registry') : Kept registry' := by
  unfold Registry.settle at hs
  split at hs
  · rename_i session hd
    obtain rfl := Option.some.inj hs
    exact h.advance hd (by simp) (by simp)
  · cases hs

theorem record (h : Kept registry) {i : Nat} (hc : Current registry (.record i))
    (hs : registry.record i = some registry') : Kept registry' := by
  unfold Registry.record at hs
  split at hs
  · rename_i session declaration hd
    obtain rfl := Option.some.inj hs
    have hadvanced := h.advance hd (by simp) (by simp : Outcome.recorded declaration ≠ .running)
    have hholder : registry.holders.get? session.taskId = some session := hc _ hd
    refine ⟨hadvanced.holder, ?_, hadvanced.asking, hadvanced.running, hadvanced.one,
      hadvanced.awaits, hadvanced.resolved⟩
    intro taskId answer ha
    simp only [OrderedMap.get?_set] at ha
    split at ha
    · rename_i ht
      obtain rfl := Option.some.inj ha
      exact ⟨i, session, ht ▸ hholder,
        List.getElem?_set_self (List.getElem?_eq_some_iff.mp hd).1⟩
    · exact hadvanced.answered taskId answer ha
  · cases hs

theorem resume (h : Kept registry) {call : Nat} (hs : registry.resume call = some registry') :
    Kept registry' := by
  unfold Registry.resume at hs
  split at hs
  · rename_i session i started hcall
    split at hs
    · rename_i owner declaration hd
      obtain rfl := Option.some.inj hs
      have hmem := List.mem_of_getElem? hcall
      obtain ⟨outcome, hown⟩ := h.awaits _ hmem i started rfl
      obtain ⟨rfl, -⟩ := Declaring.mk.inj (Option.some.inj (hown.symm.trans hd))
      -- an ask that is dropped has been recorded, so it is not a running one
      have kept {taskId : String} {j : Nat} (ha : registry.asking.get? taskId = some j)
          (hj : j ≠ i) : (if started ∧ registry.asking.get? session.taskId = some i then
            registry.asking.delete session.taskId else registry.asking).get? taskId = some j := by
        split
        · rename_i hi
          rw [OrderedMap.get?_delete, if_neg]
          · exact ha
          · rintro rfl
            exact hj (Option.some.inj (ha.symm.trans hi.2))
        · exact ha
      have fewer {taskId : String} {j : Nat}
          (ha : (if started ∧ registry.asking.get? session.taskId = some i then
            registry.asking.delete session.taskId else registry.asking).get? taskId = some j) :
          registry.asking.get? taskId = some j := by
        split at ha
        · rw [OrderedMap.get?_delete] at ha
          split at ha
          · cases ha
          · exact ha
        · exact ha
      refine ⟨h.holder, h.answered, ?_, ?_, h.one, ?_, ?_⟩
      · intro taskId j ha
        exact h.asking taskId j (fewer ha)
      · intro j s hj hh
        apply kept (h.running j s hj hh)
        rintro rfl
        exact absurd (hj.symm.trans hd) (by simp)
      · intro ask hm j started' hst
        rcases List.mem_or_eq_of_mem_set hm with hm | rfl
        · exact h.awaits ask hm j started' hst
        · cases hst
      · intro ask hm v hst
        rcases List.mem_or_eq_of_mem_set hm with hm | rfl
        · exact h.resolved ask hm v hst
        · obtain rfl := AskStatus.resolved.inj hst
          exact ⟨i, hd⟩
    · cases hs
  · cases hs

end Kept

/-- **Every event that finds nothing of another registration keeps what is kept
to its own.** -/
theorem step_kept {registry registry' : Registry} {event : Event} (h : Kept registry)
    (hc : Current registry event) (hs : step registry event = some registry') :
    Kept registry' := by
  cases event with
  | register session =>
    obtain rfl := Option.some.inj hs
    exact h.register hc
  | deregister session =>
    obtain rfl := Option.some.inj hs
    exact h.deregister session
  | ask session =>
    obtain rfl := Option.some.inj hs
    exact h.ask hc
  | settle i result => exact h.settle hs
  | record i => exact h.record hc hs
  | resume call => exact h.resume hs

theorem resume_resolves {registry : Registry} {call i : Nat} {session owner : BlanketHolderSession}
    {started : Bool} {declaration : Option HolderDeclaration}
    (hcall : registry.calls[call]? = some ⟨session, .awaits i started⟩)
    (hd : registry.declares[i]? = some ⟨owner, .recorded declaration⟩) :
    ∃ registry', step registry (.resume call) = some registry' ∧
      registry'.calls[call]? = some ⟨session, .resolved declaration⟩ := by
  simp only [step, Registry.resume, hcall, hd]
  exact ⟨_, rfl, List.getElem?_set_self (List.getElem?_eq_some_iff.mp hcall).1⟩

/-- **A settled ask is never left waiting.** -/
theorem settledAsksResolve (registry : Registry) : SettledAsksResolve registry := by
  intro call i ask d started hcall hs hd hrunning
  obtain ⟨session, status⟩ := ask
  obtain ⟨owner, outcome⟩ := d
  obtain rfl : status = .awaits i started := hs
  cases outcome with
  | running => exact absurd hrunning (by simp [Outcome.isRunning])
  | recorded declaration =>
    obtain ⟨registry', hstep, hresolved⟩ := resume_resolves hcall hd
    refine ⟨[.resume call], by simp [Continuation], registry', declaration, ?_, hresolved⟩
    simp only [run, hstep, Option.bind_some]
  | settled declaration =>
    obtain ⟨recorded, hrecord, hcalls, hdeclares⟩ :
        ∃ recorded, step registry (.record i) = some recorded ∧ recorded.calls = registry.calls ∧
          recorded.declares[i]? = some ⟨owner, .recorded declaration⟩ := by
      simp only [step, Registry.record, hd]
      exact ⟨_, rfl, rfl, List.getElem?_set_self (List.getElem?_eq_some_iff.mp hd).1⟩
    obtain ⟨registry', hstep, hresolved⟩ := resume_resolves (hcalls ▸ hcall) hdeclares
    refine ⟨[.record i, .resume call], by simp [Continuation], registry', declaration, ?_, hresolved⟩
    simp only [run, hrecord, Option.bind_some, hstep]

/-- **A blanket holder's answer answers the question put to it**, in every run
whose events find nothing of another registration in the maps. -/
theorem blanket_answers_own {events : List Event} {registry : Registry}
    (hc : Throughout step Current .empty events) (h : run step .empty events = some registry) :
    AnsweredOwn registry ∧ OneInFlight registry ∧ SettledAsksResolve registry := by
  have hk : Kept registry :=
    run_invariant (fun _ _ _ hk hc hs => step_kept hk hc hs) kept_empty hc h
  refine ⟨?_, ?_, settledAsksResolve registry⟩
  · intro ask hm declaration hs
    obtain ⟨i, hd⟩ := hk.resolved ask hm declaration hs
    exact .inl ⟨_, List.mem_of_getElem? hd, rfl, rfl⟩
  · intro i j d e hi hj hd he hsession
    obtain ⟨session, outcome⟩ := d
    obtain ⟨session', outcome'⟩ := e
    obtain rfl : session = session' := hsession
    have running {o : Outcome} (ho : o.isRunning = true) : o = .running := by
      cases o with
      | running => rfl
      | settled => cases ho
      | recorded => cases ho
    obtain rfl := running hd
    obtain rfl := running he
    exact hk.one i j session hi hj

def firstRun : BlanketHolderSession := ⟨1, "task", "repo"⟩

def secondRun : BlanketHolderSession := ⟨2, "task", "repo"⟩

/-- Each run is asked once, and taken down with nothing in flight. -/
def askedInTurn : List Event :=
  [.register firstRun, .ask firstRun, .settle 0 (.ok (some ⟨["a.ts"], []⟩)), .record 0, .resume 0,
    .deregister firstRun, .register secondRun, .ask secondRun, .settle 1 (.error "gone"), .record 1]

theorem blanket_answers_own_in_turn :
    ∃ registry, run step .empty askedInTurn = some registry ∧ AnsweredOwn registry ∧
      OneInFlight registry ∧ SettledAsksResolve registry :=
  have hc : Throughout step Current .empty askedInTurn := by decide
  ⟨_, rfl, blanket_answers_own hc rfl⟩

/-- The first run is taken down while its ask is in flight; what it then answers
is recorded under the task, where the second run's ask finds it. -/
def answeredLate : List Event :=
  [.register firstRun, .ask firstRun, .deregister firstRun, .register secondRun,
    .settle 0 (.ok (some ⟨["a.ts"], []⟩)), .record 0, .ask secondRun]

/-- An answer left over from an earlier registration is given. -/
theorem stale_answer_given :
    ¬∀ events registry, run step .empty events = some registry →
      AnsweredOwn registry ∧ OneInFlight registry ∧ SettledAsksResolve registry := by
  intro h
  obtain ⟨hown, -⟩ := h answeredLate _ rfl
  obtain ⟨d, hd, hsession, -⟩ | ⟨hnone, -⟩ :=
    hown ⟨secondRun, .resolved (some ⟨["a.ts"], []⟩)⟩ (by decide) _ rfl
  · revert d
    decide
  · cases hnone

end AgenticGit.Coordinator.BlanketHolders
