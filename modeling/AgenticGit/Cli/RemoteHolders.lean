import Mathlib.Data.Nat.Find
import AgenticGit.Shared.ChangeSet
import AgenticGit.Coordinator.BlanketHolders

/- Reaching a repository-wide holder that runs on somebody else's machine
   (`remote-holders.ts`), over the registry of `Coordinator.BlanketHolders`.

   Correspondence (TypeScript ↔ Lean):
     the module-level maps            ↔ `Channel.readings`, `.disposers`, `Questions.asks`
     a promise `declare()` returned   ↔ an entry of `Questions.promises`; `Ask.waiting`
       are those the ask's `settle` resolves
     the `release` closure            ↔ `Channel.release` of its session
     `askToDeliver` on a heartbeat    ↔ `Event.heartbeat`; its response is on its way
       until `Event.arrive` or `Event.lose`
     `Date.now()`                     ↔ the clock reading of an event, any number

   What is proved: over every order of registrations, disposers, releases, asks,
   heartbeats and answers, an earlier registration takes nothing from a later one, no
   two asks share an id, a release leaves no `declare()` waiting and no open ask is
   out of its holder's reach, exactly in the runs whose steps are `Orderly`
   (`channel_kept_iff`); and that a lost response breaks it (`lost_unasked`). -/
namespace AgenticGit.Cli.RemoteHolders
open AgenticGit.Runs AgenticGit.Shared
open AgenticGit.Coordinator.BlanketHolders (Registry BlanketHolderSession HolderDeclaration)

/-! ## Questions put to the holders -/

/-- A holder's last reading of its own workspace, and when it was taken. -/
structure Reading where
  changes : List (String × FilePatchStatus)
  readAt : Nat
  deriving DecidableEq, Repr

/-- An ask sent to a holder and not yet answered. -/
structure Ask where
  id : String
  /-- Whether the heartbeat has already carried this ask down to the worker. -/
  delivered : Bool
  /-- The promises its `settle` resolves, in the order they joined. -/
  waiting : List Nat
  deriving DecidableEq, Repr

/-- What one call of `declare()` returned. -/
structure Declared where
  taskId : String
  settled : Option (Option HolderDeclaration)
  deriving DecidableEq, Repr

inductive Fate where
  | pending | received | lost
  deriving DecidableEq, Repr

/-- A heartbeat's response with an ask in it, and the registration it goes to. -/
structure Response where
  registration : Nat
  askId : String
  fate : Fate
  deriving DecidableEq, Repr

structure Questions where
  asks : OrderedMap String Ask
  promises : List Declared
  /-- The lease and the clock reading every ask was started with. -/
  started : List (String × Nat)
  responses : List Response

def Declared.resolve (promise : Declared) (declaration : Option HolderDeclaration) : Declared :=
  match promise.settled with
  | none => { promise with settled := some declaration }
  | some _ => promise

def resolveAll (promises : List Declared) (waiting : List Nat)
    (declaration : Option HolderDeclaration) : List Declared :=
  promises.mapIdx fun i promise =>
    if i ∈ waiting then promise.resolve declaration else promise

def askId (start : String × Nat) : String := "ask_" ++ start.1 ++ "_" ++ toString start.2

namespace Questions

/-- The task's ask is taken out and everything waiting for it answered. -/
def settleAsk (q : Questions) (taskId : String) (declaration : Option HolderDeclaration) :
    Questions :=
  match q.asks.get? taskId with
  | none => q
  | some ask =>
    { q with
      asks := q.asks.delete taskId
      promises := resolveAll q.promises ask.waiting declaration }

/-- `declare()`: joins the task's ask, or starts one. -/
def declare (q : Questions) (taskId leaseId : String) (now : Nat) : Questions :=
  let promise := q.promises.length
  match q.asks.get? taskId with
  | some existing =>
    { q with
      asks := q.asks.set taskId { existing with waiting := existing.waiting ++ [promise] }
      promises := q.promises ++ [⟨taskId, none⟩] }
  | none =>
    { q with
      asks := q.asks.set taskId ⟨askId (leaseId, now), false, [promise]⟩
      promises := q.promises ++ [⟨taskId, none⟩]
      started := q.started ++ [(leaseId, now)] }

/-- The ask this holder should be told about on its next heartbeat, once. -/
def askToDeliver (q : Questions) (taskId : String) : Option String × Questions :=
  match q.asks.get? taskId with
  | none => (none, q)
  | some ask =>
    if ask.delivered then (none, q)
    else (some ask.id, { q with asks := q.asks.set taskId { ask with delivered := true } })

def respond (q : Questions) (registration : Nat) (taskId : String) : Questions :=
  match q.askToDeliver taskId with
  | (none, q) => q
  | (some id, q) => { q with responses := q.responses ++ [⟨registration, id, .pending⟩] }

def conclude (q : Questions) (i : Nat) (fate : Fate) : Option Questions :=
  match q.responses[i]? with
  | some ⟨registration, id, .pending⟩ =>
    some { q with responses := q.responses.set i ⟨registration, id, fate⟩ }
  | _ => none

end Questions

/-! ## The channel -/

structure Registration where
  session : BlanketHolderSession
  leaseId : String
  deriving DecidableEq, Repr

structure Channel where
  registry : Registry
  readings : OrderedMap String Reading
  /-- The session whose `release` stands for a task. -/
  disposers : OrderedMap String BlanketHolderSession
  /-- Every registration there was, in order. -/
  registrations : List Registration
  /-- The registrations whose disposer has been called. -/
  disposed : List Nat
  /-- The promise behind every `declare()` the registry started. -/
  asked : List Nat
  questions : Questions

namespace Channel

def empty : Channel := ⟨.empty, .empty, .empty, [], [], [], ⟨.empty, [], [], []⟩⟩

def release (s : Channel) (session : BlanketHolderSession) : Channel :=
  { s with
    registry := s.registry.deregister session
    readings := s.readings.delete session.taskId
    questions := s.questions.settleAsk session.taskId none
    disposers := s.disposers.delete session.taskId }

/-- Lets go of a remote holder when its lease ends, however it ends. -/
def releaseRemoteHolder (s : Channel) (taskId : String) : Channel :=
  match s.disposers.get? taskId with
  | none => s
  | some session => s.release session

/-- Publishes the session, then calls the disposer that stood for the task. -/
def registerRemoteHolder (s : Channel) (taskId repositoryId leaseId : String) : Channel :=
  let session : BlanketHolderSession := ⟨s.registrations.length, taskId, repositoryId⟩
  let published : Channel := { s with
    registry := s.registry.registerBlanketHolder session
    registrations := s.registrations ++ [⟨session, leaseId⟩] }
  let released := published.releaseRemoteHolder taskId
  { released with disposers := released.disposers.set taskId session }

def rememberWorkingChanges (s : Channel) (taskId : String)
    (changes : List (String × FilePatchStatus)) (now : Nat) : Channel :=
  { s with readings := s.readings.set taskId ⟨changes, now⟩ }

/-- The holder's answer; one for another ask than the open one is ignored. -/
def settleDeclaration (s : Channel) (taskId askId : String)
    (declaration : Option HolderDeclaration)
    (changes : Option (List (String × FilePatchStatus))) (now : Nat) : Bool × Channel :=
  match s.questions.asks.get? taskId with
  | none => (false, s)
  | some ask =>
    if ask.id ≠ askId then (false, s)
    else
      let s := match changes with
        | none => s
        | some changes => s.rememberWorkingChanges taskId changes now
      (true, { s with questions := s.questions.settleAsk taskId declaration })

/-- Whether `askBlanketHolderOnce` calls the session's `declare()`. -/
def starts (s : Channel) (session : BlanketHolderSession) : Bool :=
  (s.registry.answered.get? session.taskId).isNone &&
    (s.registry.asking.get? session.taskId).isNone

def askBlanketHolderOnce (s : Channel) (registration : Registration) (now : Nat) : Channel :=
  let session := registration.session
  let joined := { s with registry := s.registry.askBlanketHolderOnce session }
  if s.starts session then
    { joined with
      asked := s.asked ++ [s.questions.promises.length]
      questions := s.questions.declare session.taskId registration.leaseId now }
  else joined

/-- The registry's promise settles once the one behind it has. -/
def settleAsked (s : Channel) (i : Nat) : Option Channel := do
  let p ← s.asked[i]?
  let promise ← s.questions.promises[p]?
  let declaration ← promise.settled
  let registry ← s.registry.settle i (.ok declaration)
  return { s with registry }

end Channel

inductive Event where
  | registerRemoteHolder (taskId repositoryId leaseId : String)
  /-- A disposer that `registerRemoteHolder` returned is called. -/
  | dispose (registration : Nat)
  | releaseRemoteHolder (taskId : String)
  /-- The session of a registration is asked, directly or through the registry. -/
  | declare (registration : Nat) (now : Nat)
  | askBlanketHolderOnce (registration : Nat) (now : Nat)
  | settleAsked (declare : Nat)
  | record (declare : Nat)
  | resume (call : Nat)
  | heartbeat (registration : Nat)
  | arrive (response : Nat)
  | lose (response : Nat)
  | rememberWorkingChanges (taskId : String) (changes : List (String × FilePatchStatus)) (now : Nat)
  | settleDeclaration (taskId askId : String) (declaration : Option HolderDeclaration)
      (changes : Option (List (String × FilePatchStatus))) (now : Nat)

def step (s : Channel) : Event → Option Channel
  | .registerRemoteHolder taskId repositoryId leaseId =>
    some (s.registerRemoteHolder taskId repositoryId leaseId)
  | .dispose k =>
    if k ∈ s.disposed then none
    else s.registrations[k]?.map fun registration =>
      { s.release registration.session with disposed := s.disposed ++ [k] }
  | .releaseRemoteHolder taskId => some (s.releaseRemoteHolder taskId)
  | .declare k now => s.registrations[k]?.map fun registration =>
    { s with questions :=
        s.questions.declare registration.session.taskId registration.leaseId now }
  | .askBlanketHolderOnce k now =>
    s.registrations[k]?.map fun registration => s.askBlanketHolderOnce registration now
  | .settleAsked i => s.settleAsked i
  | .record i => (s.registry.record i).map fun registry => { s with registry }
  | .resume call => (s.registry.resume call).map fun registry => { s with registry }
  | .heartbeat k => s.registrations[k]?.map fun registration =>
    { s with questions := s.questions.respond k registration.session.taskId }
  | .arrive i => (s.questions.conclude i .received).map fun questions => { s with questions }
  | .lose i => (s.questions.conclude i .lost).map fun questions => { s with questions }
  | .rememberWorkingChanges taskId changes now =>
    some (s.rememberWorkingChanges taskId changes now)
  | .settleDeclaration taskId askId declaration changes now =>
    some (s.settleDeclaration taskId askId declaration changes now).2

/-! ## What is promised -/

def taskOf (registrations : List Registration) (k : Nat) : Option String :=
  registrations[k]?.map fun registration => registration.session.taskId

/-- Whether the task of a registration has been registered again since. -/
def Superseded (registrations : List Registration) (k : Nat) : Prop :=
  ∃ j < registrations.length, k < j ∧ taskOf registrations j = taskOf registrations k

instance (registrations : List Registration) (k : Nat) : Decidable (Superseded registrations k) :=
  inferInstanceAs (Decidable
    (∃ j < registrations.length, k < j ∧ taskOf registrations j = taskOf registrations k))

/-- The holder of a task is the last one registered for it. -/
def IsHolder (registrations : List Registration) (k : Nat) (taskId : String) : Prop :=
  taskOf registrations k = some taskId ∧ ¬Superseded registrations k

/-- Nothing a registration of the task has is another. -/
structure Same (s s' : Channel) (taskId : String) : Prop where
  ask : s'.questions.asks.get? taskId = s.questions.asks.get? taskId
  promises : ∀ p : Nat, s.questions.promises[p]? = some ⟨taskId, none⟩ →
    s'.questions.promises[p]? = some ⟨taskId, none⟩
  reading : s'.readings.get? taskId = s.readings.get? taskId
  disposer : s'.disposers.get? taskId = s.disposers.get? taskId
  holder : s'.registry.holders.get? taskId = s.registry.holders.get? taskId
  asking : s'.registry.asking.get? taskId = s.registry.asking.get? taskId
  answered : s'.registry.answered.get? taskId = s.registry.answered.get? taskId

/-- What an event may do: a disposer changes nothing of a later registration, an answer
settles what waits for the ask it names, and a release leaves nothing waiting. -/
def Allowed (s : Channel) (event : Event) (s' : Channel) : Prop :=
  match event with
  | .dispose k => ∀ j taskId, k < j → taskOf s.registrations j = some taskId → Same s s' taskId
  | .settleDeclaration taskId askId declaration _ _ =>
    ∀ p : Nat, s'.questions.promises[p]? ≠ s.questions.promises[p]? →
      s'.questions.promises[p]? = some ⟨taskId, some declaration⟩ ∧
        ∃ ask, s.questions.asks.get? taskId = some ask ∧ ask.id = askId ∧ p ∈ ask.waiting
  | .releaseRemoteHolder taskId =>
    ∀ p : Nat, s'.questions.promises[p]? ≠ some ⟨taskId, none⟩
  | _ => True

def DistinctIds (s : Channel) : Prop := (s.questions.started.map askId).Nodup

/-- The next heartbeat is handed the open ask, or a response to the holder carried it
and is not lost. -/
def Deliverable (s : Channel) : Prop :=
  ∀ taskId ask, s.questions.asks.get? taskId = some ask →
    (s.questions.askToDeliver taskId).1 = some ask.id ∨
      ∀ k, IsHolder s.registrations k taskId → ∃ response ∈ s.questions.responses,
        response.registration = k ∧ response.askId = ask.id ∧ response.fate ≠ .lost

def Keeps (s : Channel) (event : Event) : Prop :=
  ∀ s', step s event = some s' → Allowed s event s' ∧ DistinctIds s' ∧ Deliverable s'

/-! ## When it does -/

/-- An ask that `declare()` starts does not have the lease and the clock reading of an
earlier one. -/
def Questions.Fresh (q : Questions) (registration : Registration) (now : Nat) : Prop :=
  q.asks.get? registration.session.taskId = none → (registration.leaseId, now) ∉ q.started

instance (q : Questions) (registration : Registration) (now : Nat) :
    Decidable (q.Fresh registration now) :=
  inferInstanceAs (Decidable
    (q.asks.get? registration.session.taskId = none → (registration.leaseId, now) ∉ q.started))

/-- The disposer of a task registered again finds nothing of the later registration, a
registration and a release find a disposer where there is an ask to let go of, no two
asks start under one lease at one clock reading, only the holder's heartbeat takes an
ask, and no response is lost whose ask is open. -/
def Orderly (s : Channel) : Event → Prop
  | .registerRemoteHolder taskId _ _ =>
    ∀ ask ∈ s.questions.asks.get? taskId, ask.delivered = true → s.disposers.get? taskId ≠ none
  | .dispose k => Superseded s.registrations k → ∀ taskId ∈ taskOf s.registrations k,
    s.questions.asks.get? taskId = none ∧ s.readings.get? taskId = none ∧
      s.disposers.get? taskId = none
  | .releaseRemoteHolder taskId =>
    s.questions.asks.get? taskId ≠ none → s.disposers.get? taskId ≠ none
  | .declare k now =>
    ∀ registration ∈ s.registrations[k]?, s.questions.Fresh registration now
  | .askBlanketHolderOnce k now => ∀ registration ∈ s.registrations[k]?,
    s.starts registration.session = true → s.questions.Fresh registration now
  | .heartbeat k => Superseded s.registrations k → ∀ taskId ∈ taskOf s.registrations k,
    ∀ ask ∈ s.questions.asks.get? taskId, ask.delivered = true
  | .lose i => ∀ response ∈ s.questions.responses[i]?,
    ∀ taskId ∈ taskOf s.registrations response.registration, ∀ ask ∈ s.questions.asks.get? taskId, ask.id ≠ response.askId
  | _ => True

instance (s : Channel) : DecidablePred (Orderly s)
  | .registerRemoteHolder taskId _ _ => inferInstanceAs (Decidable
    (∀ ask ∈ s.questions.asks.get? taskId, ask.delivered = true → s.disposers.get? taskId ≠ none))
  | .dispose k => inferInstanceAs (Decidable
    (Superseded s.registrations k → ∀ taskId ∈ taskOf s.registrations k,
      s.questions.asks.get? taskId = none ∧ s.readings.get? taskId = none ∧
        s.disposers.get? taskId = none))
  | .releaseRemoteHolder taskId => inferInstanceAs (Decidable
    (s.questions.asks.get? taskId ≠ none → s.disposers.get? taskId ≠ none))
  | .declare k now => inferInstanceAs (Decidable
    (∀ registration ∈ s.registrations[k]?, s.questions.Fresh registration now))
  | .askBlanketHolderOnce k now => inferInstanceAs (Decidable
    (∀ registration ∈ s.registrations[k]?, s.starts registration.session = true →
      s.questions.Fresh registration now))
  | .heartbeat k => inferInstanceAs (Decidable
    (Superseded s.registrations k → ∀ taskId ∈ taskOf s.registrations k,
      ∀ ask ∈ s.questions.asks.get? taskId, ask.delivered = true))
  | .lose i => inferInstanceAs (Decidable
    (∀ response ∈ s.questions.responses[i]?,
      ∀ taskId ∈ taskOf s.registrations response.registration,
        ∀ ask ∈ s.questions.asks.get? taskId, ask.id ≠ response.askId))
  | .settleAsked _ | .record _ | .resume _ | .arrive _ | .rememberWorkingChanges _ _ _
  | .settleDeclaration _ _ _ _ _ => isTrue trivial

/-! ## Ids -/

theorem askId_toList (start : String × Nat) :
    (askId start).toList.reverse =
      (Nat.toDigits 10 start.2).reverse ++ '_' :: ("ask_" ++ start.1).toList.reverse := by
  simp [askId]

theorem askId_injective : Function.Injective askId := by
  intro a b h
  have htext := congrArg (fun id => id.toList.reverse) h
  simp only [askId_toList] at htext
  have digits (n : Nat) (rest : List Char) :
      ((Nat.toDigits 10 n).reverse ++ '_' :: rest).takeWhile (· ≠ '_') =
        (Nat.toDigits 10 n).reverse := by
    rw [List.takeWhile_append_of_pos]
    · simp
    · intro c hc
      have hne : c ≠ '_' := by
        rintro rfl
        exact Nat.underscore_not_in_toDigits (List.mem_reverse.mp hc)
      simpa using hne
  have hdigits := congrArg (List.takeWhile (· ≠ '_')) htext
  rw [digits, digits, List.reverse_inj] at hdigits
  have hclock : a.2 = b.2 := by
    rw [← Nat.ofDigitChars_ten_toDigits (n := a.2), hdigits, Nat.ofDigitChars_ten_toDigits]
  rw [hdigits, List.append_cancel_left_eq, List.cons.injEq, List.reverse_inj] at htext
  have hlease : a.1 = b.1 := by
    have := String.toList_injective htext.2
    simpa using this
  exact Prod.ext hlease hclock

/-! ## What every operation on the questions keeps -/

/-- A promise is open exactly while its task's ask has it waiting, every ask and every
response has the id of a start, and no id is used twice. -/
structure Asked (q : Questions) : Prop where
  waits : ∀ taskId (p : Nat), q.promises[p]? = some ⟨taskId, none⟩ ↔
    ∃ ask, q.asks.get? taskId = some ask ∧ p ∈ ask.waiting
  awaited : ∀ taskId ask, q.asks.get? taskId = some ask → ask.waiting ≠ []
  named : ∀ taskId ask, q.asks.get? taskId = some ask →
    ∃ start ∈ q.started, askId start = ask.id
  apart : ∀ taskId taskId' ask ask', q.asks.get? taskId = some ask →
    q.asks.get? taskId' = some ask' → ask.id = ask'.id → taskId = taskId'
  distinct : q.started.Nodup
  carried : ∀ (i : Nat) response, q.responses[i]? = some response →
    ∃ start ∈ q.started, askId start = response.askId
  fresh : ∀ taskId ask, q.asks.get? taskId = some ask → ask.delivered = false →
    ∀ (i : Nat) response, q.responses[i]? = some response → response.askId ≠ ask.id
  once : ∀ (i j : Nat) response response', q.responses[i]? = some response →
    q.responses[j]? = some response' → response.askId = response'.askId → i = j

namespace Questions

variable {q q' : Questions} {taskId leaseId : String} {declaration : Option HolderDeclaration}

theorem settleAsk_asks (q : Questions) (taskId taskId' : String)
    (declaration : Option HolderDeclaration) :
    (q.settleAsk taskId declaration).asks.get? taskId' =
      if taskId' = taskId then none else q.asks.get? taskId' := by
  unfold settleAsk
  cases hask : q.asks.get? taskId with
  | none =>
    by_cases ht : taskId' = taskId
    · rw [if_pos ht, ht, hask]
    · rw [if_neg ht]
  | some ask => exact OrderedMap.get?_delete _ _ _

@[simp] theorem settleAsk_started (q : Questions) (taskId : String)
    (declaration : Option HolderDeclaration) :
    (q.settleAsk taskId declaration).started = q.started := by
  unfold settleAsk
  split <;> rfl

@[simp] theorem settleAsk_responses (q : Questions) (taskId : String)
    (declaration : Option HolderDeclaration) :
    (q.settleAsk taskId declaration).responses = q.responses := by
  unfold settleAsk
  split <;> rfl

theorem settleAsk_promises (h : Asked q) (taskId : String)
    (declaration : Option HolderDeclaration) (p : Nat) :
    (q.settleAsk taskId declaration).promises[p]? = (q.promises[p]?).map fun promise =>
      if promise = ⟨taskId, none⟩ then ⟨taskId, some declaration⟩ else promise := by
  have hwaits := h.waits taskId p
  unfold settleAsk
  cases hask : q.asks.get? taskId with
  | none =>
    have hopen : q.promises[p]? ≠ some ⟨taskId, none⟩ := by
      intro hp
      obtain ⟨ask, hget, -⟩ := hwaits.mp hp
      exact absurd (hask.symm.trans hget) (by simp)
    cases hp : q.promises[p]? with
    | none => rfl
    | some promise =>
      show some promise = some (if promise = _ then _ else promise)
      rw [if_neg]
      rintro rfl
      exact hopen hp
  | some ask =>
    show (resolveAll q.promises ask.waiting declaration)[p]? = _
    rw [resolveAll, List.getElem?_mapIdx]
    cases hp : q.promises[p]? with
    | none => rfl
    | some promise =>
      simp only [Option.map_some, Option.some.injEq]
      have hiff : promise = ⟨taskId, none⟩ ↔ p ∈ ask.waiting := by
        rw [hp, Option.some.injEq] at hwaits
        rw [hwaits]
        constructor
        · rintro ⟨ask', hget, hmem⟩
          obtain rfl := Option.some.inj (hask.symm.trans hget)
          exact hmem
        · exact fun hmem => ⟨ask, hask, hmem⟩
      by_cases hmem : p ∈ ask.waiting
      · rw [if_pos hmem, if_pos (hiff.mpr hmem), hiff.mpr hmem]
        rfl
      · rw [if_neg hmem, if_neg (fun heq => hmem (hiff.mp heq))]

theorem settleAsk_open (h : Asked q) (taskId taskId' : String)
    (declaration : Option HolderDeclaration) (p : Nat) :
    (q.settleAsk taskId declaration).promises[p]? = some ⟨taskId', none⟩ ↔
      taskId' ≠ taskId ∧ q.promises[p]? = some ⟨taskId', none⟩ := by
  rw [settleAsk_promises h, Option.map_eq_some_iff]
  constructor
  · rintro ⟨promise, hp, heq⟩
    split at heq
    · exact absurd (congrArg Declared.settled heq) (by simp)
    · rename_i hne
      subst heq
      exact ⟨fun ht => hne (by rw [ht]), hp⟩
  · rintro ⟨hne, hp⟩
    exact ⟨_, hp, if_neg fun heq => hne (congrArg Declared.taskId heq)⟩

end Questions

namespace Asked

variable {q q' : Questions} {taskId leaseId : String} {declaration : Option HolderDeclaration}

theorem settleAsk (h : Asked q) (taskId : String) (declaration : Option HolderDeclaration) :
    Asked (q.settleAsk taskId declaration) := by
  have old {taskId' : String} {ask : Ask}
      (hget : (q.settleAsk taskId declaration).asks.get? taskId' = some ask) :
      q.asks.get? taskId' = some ask := by
    rw [q.settleAsk_asks] at hget
    split at hget
    · cases hget
    · exact hget
  constructor
  · intro taskId' p
    rw [Questions.settleAsk_open h, h.waits, q.settleAsk_asks]
    constructor
    · rintro ⟨hne, ask, hget, hp⟩
      exact ⟨ask, by rw [if_neg hne, hget], hp⟩
    · rintro ⟨ask, hget, hp⟩
      split at hget
      · cases hget
      · rename_i hne
        exact ⟨hne, ask, hget, hp⟩
  · exact fun taskId' ask hget => h.awaited taskId' ask (old hget)
  · intro taskId' ask hget
    rw [q.settleAsk_started]
    exact h.named taskId' ask (old hget)
  · exact fun _ _ _ _ hget hget' => h.apart _ _ _ _ (old hget) (old hget')
  · rw [q.settleAsk_started]
    exact h.distinct
  · rw [q.settleAsk_started, q.settleAsk_responses]
    exact h.carried
  · rw [q.settleAsk_responses]
    exact fun taskId' ask hget => h.fresh taskId' ask (old hget)
  · rw [q.settleAsk_responses]
    exact h.once

theorem snoc_open (promises : List Declared) (taskId taskId' : String) (p : Nat) :
    (promises ++ [⟨taskId, none⟩])[p]? = some ⟨taskId', none⟩ ↔
      promises[p]? = some ⟨taskId', none⟩ ∨ p = promises.length ∧ taskId' = taskId := by
  rw [List.getElem?_append]
  split
  · rename_i hlt
    exact ⟨.inl, fun h => h.elim id fun h => absurd h.1 (by omega)⟩
  · rename_i hge
    rw [List.getElem?_eq_none (by omega : promises.length ≤ p)]
    by_cases hp : p = promises.length
    · subst hp
      simp [eq_comm]
    · rw [List.getElem?_eq_none (by simp; omega)]
      simp [hp]

theorem declare (h : Asked q) {registration : Registration} {now : Nat}
    (hf : q.Fresh registration now) :
    Asked (q.declare registration.session.taskId registration.leaseId now) := by
  generalize htask : registration.session.taskId = taskId at *
  unfold Questions.declare
  cases hask : q.asks.get? taskId with
  | some existing =>
    dsimp only
    have cases_of {taskId' : String} {ask : Ask}
        (hget : (q.asks.set taskId { existing with
          waiting := existing.waiting ++ [q.promises.length] }).get? taskId' = some ask) :
        ∃ ask', q.asks.get? taskId' = some ask' ∧ ask'.id = ask.id ∧
          ask'.delivered = ask.delivered ∧ ask.waiting ≠ [] := by
      rw [OrderedMap.get?_set] at hget
      split at hget
      · rename_i ht
        obtain rfl := Option.some.inj hget
        exact ⟨existing, ht ▸ hask, rfl, rfl, by simp⟩
      · exact ⟨ask, hget, rfl, rfl, h.awaited _ _ hget⟩
    constructor
    · intro taskId' p
      rw [snoc_open, h.waits, OrderedMap.get?_set]
      by_cases ht : taskId' = taskId
      · subst ht
        simp [hask]
      · simp [ht]
    · intro taskId' ask hget
      obtain ⟨-, -, -, -, hne⟩ := cases_of hget
      exact hne
    · intro taskId' ask hget
      obtain ⟨ask', hget', hid, -, -⟩ := cases_of hget
      rw [← hid]
      exact h.named taskId' ask' hget'
    · intro t t' a a' hget hget' heq
      obtain ⟨b, hb, hid, -, -⟩ := cases_of hget
      obtain ⟨b', hb', hid', -, -⟩ := cases_of hget'
      exact h.apart t t' b b' hb hb' (by rw [hid, heq, hid'])
    · exact h.distinct
    · exact h.carried
    · intro taskId' ask hget hdelivered
      obtain ⟨ask', hget', hid, hd, -⟩ := cases_of hget
      rw [← hid]
      exact h.fresh taskId' ask' hget' (hd.trans hdelivered)
    · exact h.once
  | none =>
    dsimp only
    have hnew := hf (htask ▸ hask)
    have unnamed {start : String × Nat} (hstart : start ∈ q.started) :
        askId start ≠ askId (registration.leaseId, now) := fun heq =>
      hnew (askId_injective heq ▸ hstart)
    have cases_of {taskId' : String} {ask : Ask}
        (hget : (q.asks.set taskId ⟨askId (registration.leaseId, now), false,
          [q.promises.length]⟩).get? taskId' = some ask) :
        taskId' = taskId ∧ ask = ⟨askId (registration.leaseId, now), false,
          [q.promises.length]⟩ ∨ q.asks.get? taskId' = some ask := by
      rw [OrderedMap.get?_set] at hget
      split at hget
      · rename_i ht
        exact .inl ⟨ht, (Option.some.inj hget).symm⟩
      · exact .inr hget
    constructor
    · intro taskId' p
      rw [snoc_open, h.waits, OrderedMap.get?_set]
      by_cases ht : taskId' = taskId
      · subst ht
        simp [hask]
      · simp [ht]
    · intro taskId' ask hget
      rcases cases_of hget with ⟨-, rfl⟩ | hold
      · simp
      · exact h.awaited _ _ hold
    · intro taskId' ask hget
      rcases cases_of hget with ⟨-, rfl⟩ | hold
      · exact ⟨_, by simp, rfl⟩
      · obtain ⟨start, hstart, hid⟩ := h.named _ _ hold
        exact ⟨start, List.mem_append_left _ hstart, hid⟩
    · intro t t' a a' hget hget' heq
      rcases cases_of hget with ⟨rfl, rfl⟩ | hold
      · rcases cases_of hget' with ⟨rfl, -⟩ | hold'
        · rfl
        · obtain ⟨start, hstart, hid⟩ := h.named _ _ hold'
          exact absurd (hid.trans heq.symm) (unnamed hstart)
      · rcases cases_of hget' with ⟨-, rfl⟩ | hold'
        · obtain ⟨start, hstart, hid⟩ := h.named _ _ hold
          exact absurd (hid.trans heq) (unnamed hstart)
        · exact h.apart t t' a a' hold hold' heq
    · refine List.nodup_append.mpr ⟨h.distinct, List.nodup_singleton _, ?_⟩
      intro start hstart last hlast heq
      rw [heq, List.mem_singleton.mp hlast] at hstart
      exact hnew hstart
    · intro i response hi
      obtain ⟨start, hstart, hid⟩ := h.carried i response hi
      exact ⟨start, List.mem_append_left _ hstart, hid⟩
    · intro taskId' ask hget hdelivered i response hi
      rcases cases_of hget with ⟨-, rfl⟩ | hold
      · obtain ⟨start, hstart, hid⟩ := h.carried i response hi
        rw [← hid]
        exact unnamed hstart
      · exact h.fresh taskId' ask hold hdelivered i response hi
    · exact h.once

end Asked

namespace Questions

variable {q q' : Questions}

theorem askToDeliver_eq (q : Questions) (taskId : String) {ask : Ask}
    (hask : q.asks.get? taskId = some ask) :
    (q.askToDeliver taskId).1 = some ask.id ↔ ask.delivered = false := by
  unfold askToDeliver
  rw [hask]
  cases hdelivered : ask.delivered <;> simp [hdelivered]

theorem respond_cases (q : Questions) (registration : Nat) (taskId : String) :
    (q.respond registration taskId = q ∧
      ∀ ask, q.asks.get? taskId = some ask → ask.delivered = true) ∨
    ∃ ask, q.asks.get? taskId = some ask ∧ ask.delivered = false ∧
      q.respond registration taskId = { q with
        asks := q.asks.set taskId { ask with delivered := true }
        responses := q.responses ++ [⟨registration, ask.id, .pending⟩] } := by
  unfold respond askToDeliver
  cases hask : q.asks.get? taskId with
  | none => exact .inl ⟨rfl, nofun⟩
  | some ask =>
    cases hdelivered : ask.delivered with
    | true =>
      refine .inl ⟨by simp [hdelivered], ?_⟩
      rintro ask' h
      obtain rfl := Option.some.inj h
      exact hdelivered
    | false => exact .inr ⟨ask, rfl, hdelivered, by simp [hdelivered]⟩

theorem conclude_cases {i : Nat} {fate : Fate} (h : q.conclude i fate = some q') :
    ∃ registration id, q.responses[i]? = some ⟨registration, id, .pending⟩ ∧
      q' = { q with responses := q.responses.set i ⟨registration, id, fate⟩ } := by
  unfold conclude at h
  split at h
  · rename_i registration id hi
    exact ⟨registration, id, hi, (Option.some.inj h).symm⟩
  · cases h

end Questions

namespace Asked

variable {q q' : Questions}

theorem respond (h : Asked q) (registration : Nat) (taskId : String) :
    Asked (q.respond registration taskId) := by
  rcases q.respond_cases registration taskId with ⟨hsame, -⟩ | ⟨ask, hask, hdelivered, hnew⟩
  · rw [hsame]
    exact h
  rw [hnew]
  have cases_of {taskId' : String} {ask' : Ask}
      (hget : (q.asks.set taskId { ask with delivered := true }).get? taskId' = some ask') :
      ∃ old, q.asks.get? taskId' = some old ∧ old.id = ask'.id ∧ old.waiting = ask'.waiting ∧
        (ask'.delivered = false → taskId' ≠ taskId ∧ old.delivered = false) := by
    rw [OrderedMap.get?_set] at hget
    split at hget
    · rename_i ht
      obtain rfl := Option.some.inj hget
      exact ⟨ask, ht ▸ hask, rfl, rfl, fun h => by cases h⟩
    · rename_i hne
      exact ⟨ask', hget, rfl, rfl, fun hd => ⟨hne, hd⟩⟩
  have snoc {i : Nat} {response : Response}
      (hi : (q.responses ++ [⟨registration, ask.id, .pending⟩])[i]? = some response) :
      q.responses[i]? = some response ∨
        i = q.responses.length ∧ response = ⟨registration, ask.id, .pending⟩ := by
    rw [List.getElem?_append] at hi
    split at hi
    · exact .inl hi
    · obtain ⟨hlt, hi⟩ := List.getElem?_eq_some_iff.mp hi
      have hlt' : i - q.responses.length < 1 := hlt
      simp only [List.getElem_singleton] at hi
      exact .inr ⟨by omega, hi.symm⟩
  constructor
  · intro taskId' p
    rw [h.waits, OrderedMap.get?_set]
    by_cases ht : taskId' = taskId
    · subst ht
      simp [hask]
    · simp [ht]
  · intro taskId' ask' hget
    obtain ⟨old, hold, -, hwaiting, -⟩ := cases_of hget
    rw [← hwaiting]
    exact h.awaited _ _ hold
  · intro taskId' ask' hget
    obtain ⟨old, hold, hid, -, -⟩ := cases_of hget
    rw [← hid]
    exact h.named _ _ hold
  · intro t t' a a' hget hget' heq
    obtain ⟨b, hb, hid, -, -⟩ := cases_of hget
    obtain ⟨b', hb', hid', -, -⟩ := cases_of hget'
    exact h.apart t t' b b' hb hb' (by rw [hid, heq, hid'])
  · exact h.distinct
  · intro i response hi
    rcases snoc hi with hold | ⟨-, rfl⟩
    · exact h.carried i response hold
    · exact h.named _ _ hask
  · intro taskId' ask' hget hd i response hi
    obtain ⟨old, hold, hid, -, hkept⟩ := cases_of hget
    obtain ⟨hne, hd⟩ := hkept hd
    rw [← hid]
    rcases snoc hi with hi | ⟨-, rfl⟩
    · exact h.fresh _ _ hold hd i response hi
    · exact fun heq => hne (h.apart _ _ _ _ hold hask heq.symm)
  · intro i j response response' hi hj heq
    have unsent := h.fresh _ _ hask hdelivered
    rcases snoc hi with hi | ⟨rfl, rfl⟩
    · rcases snoc hj with hj | ⟨rfl, rfl⟩
      · exact h.once i j response response' hi hj heq
      · exact absurd heq (unsent i response hi)
    · rcases snoc hj with hj | ⟨rfl, -⟩
      · exact absurd heq.symm (unsent j response' hj)
      · rfl

theorem conclude (h : Asked q) {i : Nat} {fate : Fate} (hs : q.conclude i fate = some q') :
    Asked q' := by
  obtain ⟨registration, id, hi, rfl⟩ := Questions.conclude_cases hs
  have old {j : Nat} {response : Response}
      (hj : (q.responses.set i ⟨registration, id, fate⟩)[j]? = some response) :
      ∃ before, q.responses[j]? = some before ∧ before.askId = response.askId := by
    by_cases hij : i = j
    · subst hij
      rw [List.getElem?_set_self (List.getElem?_eq_some_iff.mp hi).1] at hj
      obtain rfl := Option.some.inj hj
      exact ⟨_, hi, rfl⟩
    · rw [List.getElem?_set_ne hij] at hj
      exact ⟨response, hj, rfl⟩
  refine ⟨h.waits, h.awaited, h.named, h.apart, h.distinct, ?_, ?_, ?_⟩
  · intro j response hj
    obtain ⟨before, hbefore, hid⟩ := old hj
    rw [← hid]
    exact h.carried j before hbefore
  · intro taskId ask hask hdelivered j response hj
    obtain ⟨before, hbefore, hid⟩ := old hj
    rw [← hid]
    exact h.fresh taskId ask hask hdelivered j before hbefore
  · intro j k response response' hj hk heq
    obtain ⟨before, hbefore, hid⟩ := old hj
    obtain ⟨before', hbefore', hid'⟩ := old hk
    exact h.once j k before before' hbefore hbefore' (by rw [hid, heq, hid'])

end Asked

/-! ## Holders -/

section
variable {registrations : List Registration} {registration : Registration} {k : Nat}
  {taskId : String}

theorem taskOf_snoc : taskOf (registrations ++ [registration]) k =
    if k = registrations.length then some registration.session.taskId
    else taskOf registrations k := by
  unfold taskOf
  rw [List.getElem?_append]
  split
  · rename_i hlt
    rw [if_neg (by omega)]
  · rename_i hge
    split
    · rename_i hk
      subst hk
      simp
    · rw [List.getElem?_eq_none (by simp; omega), List.getElem?_eq_none (by omega)]

theorem taskOf_lt (h : taskOf registrations k = some taskId) : k < registrations.length := by
  obtain ⟨r, hr, -⟩ := Option.map_eq_some_iff.mp h
  exact (List.getElem?_eq_some_iff.mp hr).1

theorem not_superseded_last :
    ¬Superseded (registrations ++ [registration]) registrations.length := by
  rintro ⟨j, hj, hlt, -⟩
  simp only [List.length_append, List.length_singleton] at hj
  omega

theorem superseded_snoc (hk : taskOf registrations k = some taskId)
    (hne : taskId ≠ registration.session.taskId) :
    Superseded (registrations ++ [registration]) k ↔ Superseded registrations k := by
  have hlt := taskOf_lt hk
  constructor
  · rintro ⟨j, hj, hkj, heq⟩
    simp only [taskOf_snoc] at heq
    rw [if_neg (by omega : k ≠ registrations.length), hk] at heq
    split at heq
    · exact absurd (Option.some.inj heq).symm hne
    · exact ⟨j, taskOf_lt heq, hkj, heq.trans hk.symm⟩
  · rintro ⟨j, hj, hkj, heq⟩
    refine ⟨j, by simp; omega, hkj, ?_⟩
    simp only [taskOf_snoc]
    rw [if_neg (by omega), if_neg (by omega), heq]

theorem isHolder_snoc (h : IsHolder (registrations ++ [registration]) k taskId) :
    (k = registrations.length ∧ taskId = registration.session.taskId) ∨
      (taskId ≠ registration.session.taskId ∧ IsHolder registrations k taskId) := by
  obtain ⟨htask, hlast⟩ := h
  by_cases hk : k = registrations.length
  · rw [taskOf_snoc, if_pos hk] at htask
    exact .inl ⟨hk, (Option.some.inj htask).symm⟩
  · rw [taskOf_snoc, if_neg hk] at htask
    have hne : taskId ≠ registration.session.taskId := by
      rintro rfl
      refine hlast ⟨registrations.length, by simp, taskOf_lt htask, ?_⟩
      simp [taskOf_snoc, hk, htask]
    exact .inr ⟨hne, htask, fun hsup => hlast ((superseded_snoc htask hne).mpr hsup)⟩

theorem exists_holder (h : taskOf registrations k = some taskId) :
    ∃ j, IsHolder registrations j taskId := by
  have hspec := Nat.findGreatest_spec (P := fun j => taskOf registrations j = some taskId)
    (Nat.le_of_lt (taskOf_lt h)) h
  refine ⟨_, hspec, ?_⟩
  rintro ⟨j, hj, hlt, heq⟩
  exact Nat.findGreatest_is_greatest hlt (Nat.le_of_lt hj) (heq.trans hspec)

end

/-! ## What every event keeps -/

/-- The questions are as asked, a session that is registered is its task's last one, a
disposer is its task's, and an open ask is in its holder's reach. -/
structure Kept (s : Channel) : Prop where
  asked : Asked s.questions
  object : ∀ (k : Nat) registration, s.registrations[k]? = some registration →
    registration.session.object = k
  newest : ∀ (k : Nat) registration, s.registrations[k]? = some registration →
    s.registry.holders.get? registration.session.taskId = some registration.session →
      ¬Superseded s.registrations k
  standing : ∀ taskId session, s.disposers.get? taskId = some session → session.taskId = taskId
  reached : ∀ taskId ask, s.questions.asks.get? taskId = some ask →
    ∃ k, taskOf s.registrations k = some taskId
  sent : ∀ response ∈ s.questions.responses, response.registration < s.registrations.length
  deliverable : Deliverable s

theorem deliverable_iff (s : Channel) : Deliverable s ↔
    ∀ taskId ask, s.questions.asks.get? taskId = some ask → ask.delivered = true →
      ∀ k, IsHolder s.registrations k taskId → ∃ response ∈ s.questions.responses,
        response.registration = k ∧ response.askId = ask.id ∧ response.fate ≠ .lost := by
  constructor
  · intro h taskId ask hask hdelivered
    rcases h taskId ask hask with hnext | hcarried
    · rw [Questions.askToDeliver_eq _ _ hask] at hnext
      exact absurd (hnext.symm.trans hdelivered) (by simp)
    · exact hcarried
  · intro h taskId ask hask
    cases hdelivered : ask.delivered with
    | false => exact .inl ((Questions.askToDeliver_eq _ _ hask).mpr hdelivered)
    | true => exact .inr (h taskId ask hask hdelivered)

theorem distinctIds {s : Channel} (h : Asked s.questions) : DistinctIds s :=
  h.distinct.map askId_injective

theorem kept_empty : Kept .empty := by
  constructor
  · constructor <;> intros <;> simp_all [Channel.empty]
  all_goals intros; simp_all [Channel.empty, Deliverable]

namespace Kept

variable {s s' : Channel} {session : BlanketHolderSession}

theorem deregister_holders (registry : Registry) (session : BlanketHolderSession)
    {taskId : String} {held : BlanketHolderSession}
    (h : (registry.deregister session).holders.get? taskId = some held) :
    registry.holders.get? taskId = some held := by
  unfold Registry.deregister at h
  split at h
  · simp only [OrderedMap.get?_delete] at h
    split at h
    · cases h
    · exact h
  · exact h

theorem next (h : Kept s) (hregistrations : s'.registrations = s.registrations)
    (hholders : ∀ taskId held, s'.registry.holders.get? taskId = some held →
      s.registry.holders.get? taskId = some held)
    (hdisposers : ∀ taskId held, s'.disposers.get? taskId = some held →
      s.disposers.get? taskId = some held)
    (hasked : Asked s'.questions)
    (hreached : ∀ taskId ask, s'.questions.asks.get? taskId = some ask →
      ∃ k, taskOf s.registrations k = some taskId)
    (hsent : ∀ response ∈ s'.questions.responses, response.registration < s.registrations.length)
    (hdeliverable : Deliverable s') : Kept s' := by
  refine ⟨hasked, ?_, ?_, ?_, ?_, ?_, hdeliverable⟩
  · rw [hregistrations]
    exact h.object
  · rw [hregistrations]
    exact fun k registration hk hheld => h.newest k registration hk (hholders _ _ hheld)
  · exact fun taskId held hheld => h.standing taskId held (hdisposers taskId held hheld)
  · rw [hregistrations]
    exact hreached
  · rw [hregistrations]
    exact hsent

theorem same (h : Kept s) (hregistrations : s'.registrations = s.registrations)
    (hholders : s'.registry.holders = s.registry.holders)
    (hdisposers : s'.disposers = s.disposers) (hquestions : s'.questions = s.questions) :
    Kept s' := by
  refine h.next hregistrations ?_ ?_ ?_ ?_ ?_ ?_
  · rw [hholders]
    exact fun _ _ => id
  · rw [hdisposers]
    exact fun _ _ => id
  · rw [hquestions]
    exact h.asked
  · rw [hquestions]
    exact h.reached
  · rw [hquestions]
    exact h.sent
  · unfold Deliverable
    rw [hquestions, hregistrations]
    exact h.deliverable

variable {declaration : Option HolderDeclaration} {registration : Registration}

theorem deliverable_settleAsk (h : Kept s) {taskId : String}
    (hregistrations : s'.registrations = s.registrations)
    (hquestions : s'.questions = s.questions.settleAsk taskId declaration) : Deliverable s' := by
  rw [deliverable_iff, hquestions, hregistrations, s.questions.settleAsk_responses]
  intro taskId' ask hask
  rw [s.questions.settleAsk_asks] at hask
  split at hask
  · cases hask
  · exact (deliverable_iff s).mp h.deliverable taskId' ask hask

theorem settled (h : Kept s) {taskId : String} (hregistrations : s'.registrations = s.registrations)
    (hholders : ∀ taskId held, s'.registry.holders.get? taskId = some held →
      s.registry.holders.get? taskId = some held)
    (hdisposers : ∀ taskId held, s'.disposers.get? taskId = some held →
      s.disposers.get? taskId = some held)
    (hquestions : s'.questions = s.questions.settleAsk taskId declaration) : Kept s' := by
  refine h.next hregistrations hholders hdisposers ?_ ?_ ?_
    (h.deliverable_settleAsk hregistrations hquestions)
  · rw [hquestions]
    exact h.asked.settleAsk taskId declaration
  · rw [hquestions]
    intro taskId' ask hask
    rw [s.questions.settleAsk_asks] at hask
    split at hask
    · cases hask
    · exact h.reached taskId' ask hask
  · rw [hquestions, s.questions.settleAsk_responses]
    exact h.sent

theorem release (h : Kept s) (session : BlanketHolderSession) : Kept (s.release session) := by
  refine h.settled rfl (fun _ _ => deregister_holders _ _) ?_ rfl
  intro taskId held hheld
  simp only [Channel.release, OrderedMap.get?_delete] at hheld
  split at hheld
  · cases hheld
  · exact hheld

theorem releaseRemoteHolder (h : Kept s) (taskId : String) : Kept (s.releaseRemoteHolder taskId) := by
  unfold Channel.releaseRemoteHolder
  split
  · exact h
  · exact h.release _

/-- A new registration is the holder of its task and its session the one published;
what is left open is not carried yet. -/
theorem registered (h : Kept s) (last : Registration)
    (hobject : last.session.object = s.registrations.length)
    (hregistrations : s'.registrations = s.registrations ++ [last])
    (hholders : ∀ taskId held, s'.registry.holders.get? taskId = some held →
      (taskId = last.session.taskId ∧ held = last.session) ∨
        (taskId ≠ last.session.taskId ∧ s.registry.holders.get? taskId = some held))
    (hdisposers : ∀ taskId session, s'.disposers.get? taskId = some session →
      session.taskId = taskId)
    (hasked : Asked s'.questions)
    (hasks : ∀ taskId ask, s'.questions.asks.get? taskId = some ask →
      s.questions.asks.get? taskId = some ask ∧
        (taskId = last.session.taskId → ask.delivered = false))
    (hresponses : s'.questions.responses = s.questions.responses) : Kept s' := by
  have cases_of {k : Nat} {registration : Registration}
      (hk : s'.registrations[k]? = some registration) :
      s.registrations[k]? = some registration ∨
        k = s.registrations.length ∧ registration = last := by
    rw [hregistrations, List.getElem?_append] at hk
    split at hk
    · exact .inl hk
    · obtain ⟨hlt, hk⟩ := List.getElem?_eq_some_iff.mp hk
      have hlt' : k - s.registrations.length < 1 := hlt
      simp only [List.getElem_singleton] at hk
      exact .inr ⟨by omega, hk.symm⟩
  refine ⟨hasked, ?_, ?_, hdisposers, ?_, ?_, ?_⟩
  · intro k registration hk
    rcases cases_of hk with hold | ⟨rfl, rfl⟩
    · exact h.object k registration hold
    · exact hobject
  · intro k registration hk hheld
    rw [hregistrations]
    rcases cases_of hk with hold | ⟨rfl, rfl⟩
    · have htask : taskOf s.registrations k = some registration.session.taskId := by
        rw [taskOf, hold]
        rfl
      rcases hholders _ _ hheld with ⟨-, hsession⟩ | ⟨hne, hheld⟩
      · have hlt := taskOf_lt htask
        have := h.object k registration hold
        rw [hsession, hobject] at this
        omega
      · rw [superseded_snoc htask hne]
        exact h.newest k registration hold hheld
    · exact not_superseded_last
  · intro taskId ask hask
    obtain ⟨k, hk⟩ := h.reached taskId ask (hasks taskId ask hask).1
    refine ⟨k, ?_⟩
    rw [hregistrations, taskOf_snoc, if_neg (Nat.ne_of_lt (taskOf_lt hk)), hk]
  · intro response hmem
    rw [hresponses] at hmem
    rw [hregistrations, List.length_append]
    exact Nat.lt_add_right _ (h.sent response hmem)
  · rw [deliverable_iff, hregistrations, hresponses]
    intro taskId ask hask hdelivered k hk
    obtain ⟨hask, hnot⟩ := hasks taskId ask hask
    rcases isHolder_snoc hk with ⟨-, ht⟩ | ⟨-, hk⟩
    · exact absurd ((hnot ht).symm.trans hdelivered) (by simp)
    · exact (deliverable_iff s).mp h.deliverable taskId ask hask hdelivered k hk

theorem register (h : Kept s) {taskId repositoryId leaseId : String}
    (ho : Orderly s (.registerRemoteHolder taskId repositoryId leaseId)) :
    Kept (s.registerRemoteHolder taskId repositoryId leaseId) := by
  have disposers_set {disposers : OrderedMap String BlanketHolderSession}
      (hold : ∀ t session, disposers.get? t = some session → session.taskId = t)
      (t : String) (session : BlanketHolderSession)
      (hget : (disposers.set taskId ⟨s.registrations.length, taskId, repositoryId⟩).get? t =
        some session) : session.taskId = t := by
    rw [OrderedMap.get?_set] at hget
    split at hget
    · rename_i ht
      obtain rfl := Option.some.inj hget
      exact ht.symm
    · exact hold t session hget
  have holders_set {t : String} {held : BlanketHolderSession}
      (hget : (s.registry.holders.set taskId
        ⟨s.registrations.length, taskId, repositoryId⟩).get? t = some held) :
      (t = taskId ∧ held = ⟨s.registrations.length, taskId, repositoryId⟩) ∨
        (t ≠ taskId ∧ s.registry.holders.get? t = some held) := by
    rw [OrderedMap.get?_set] at hget
    split at hget
    · rename_i ht
      exact .inl ⟨ht, (Option.some.inj hget).symm⟩
    · rename_i hne
      exact .inr ⟨hne, hget⟩
  unfold Channel.registerRemoteHolder Channel.releaseRemoteHolder
  cases hdisposer : s.disposers.get? taskId with
  | none =>
    simp only [hdisposer]
    refine h.registered ⟨⟨s.registrations.length, taskId, repositoryId⟩, leaseId⟩ rfl rfl
      (fun _ _ => holders_set) (disposers_set h.standing) h.asked ?_ rfl
    rintro t ask hask
    refine ⟨hask, ?_⟩
    rintro rfl
    rw [← Bool.not_eq_true]
    exact fun hdelivered => ho ask hask hdelivered hdisposer
  | some old =>
    have ht : old.taskId = taskId := h.standing taskId old hdisposer
    simp only [hdisposer]
    refine h.registered ⟨⟨s.registrations.length, taskId, repositoryId⟩, leaseId⟩ rfl rfl
      (fun _ _ hget => holders_set (deregister_holders _ _ hget)) (disposers_set ?_)
      (h.asked.settleAsk _ _) ?_ (s.questions.settleAsk_responses _ _)
    · intro t session hget
      simp only [Channel.release, OrderedMap.get?_delete] at hget
      split at hget
      · cases hget
      · exact h.standing t session hget
    · intro t ask hask
      simp only [Channel.release, Questions.settleAsk_asks] at hask
      split at hask
      · cases hask
      · rename_i hne
        exact ⟨hask, fun heq => absurd (heq.trans ht.symm) hne⟩

theorem declare (h : Kept s) {k : Nat} {now : Nat} (hk : s.registrations[k]? = some registration)
    (hf : s.questions.Fresh registration now) (hregistrations : s'.registrations = s.registrations)
    (hholders : s'.registry.holders = s.registry.holders) (hdisposers : s'.disposers = s.disposers)
    (hquestions : s'.questions =
      s.questions.declare registration.session.taskId registration.leaseId now) : Kept s' := by
  have hasked := h.asked.declare hf
  have cases_of {taskId : String} {ask : Ask} (hask : s'.questions.asks.get? taskId = some ask) :
      (taskId = registration.session.taskId ∧ ask.delivered = false) ∨
        ∃ old, s.questions.asks.get? taskId = some old ∧ old.id = ask.id ∧
          old.delivered = ask.delivered := by
    rw [hquestions] at hask
    unfold Questions.declare at hask
    split at hask
    · rename_i existing hexisting
      simp only [OrderedMap.get?_set] at hask
      split at hask
      · rename_i ht
        obtain rfl := Option.some.inj hask
        exact .inr ⟨existing, ht ▸ hexisting, rfl, rfl⟩
      · exact .inr ⟨ask, hask, rfl, rfl⟩
    · simp only [OrderedMap.get?_set] at hask
      split at hask
      · rename_i ht
        obtain rfl := Option.some.inj hask
        exact .inl ⟨ht, rfl⟩
      · exact .inr ⟨ask, hask, rfl, rfl⟩
  have hresponses : s'.questions.responses = s.questions.responses := by
    rw [hquestions]
    unfold Questions.declare
    split <;> rfl
  refine h.next hregistrations ?_ ?_ (hquestions ▸ hasked) ?_ ?_ ?_
  · rw [hholders]
    exact fun _ _ => id
  · rw [hdisposers]
    exact fun _ _ => id
  · intro taskId ask hask
    rcases cases_of hask with ⟨rfl, -⟩ | ⟨old, hold, -, -⟩
    · exact ⟨k, by rw [taskOf, hk]; rfl⟩
    · exact h.reached taskId old hold
  · rw [hresponses]
    exact h.sent
  · rw [deliverable_iff, hresponses, hregistrations]
    intro taskId ask hask hdelivered
    rcases cases_of hask with ⟨-, hnot⟩ | ⟨old, hold, hid, hd⟩
    · exact absurd (hnot.symm.trans hdelivered) (by simp)
    · rw [← hid]
      exact (deliverable_iff s).mp h.deliverable taskId old hold (hd.trans hdelivered)

theorem heartbeat (h : Kept s) {k : Nat} (hk : s.registrations[k]? = some registration)
    (ho : Orderly s (.heartbeat k)) (hregistrations : s'.registrations = s.registrations)
    (hregistry : s'.registry = s.registry) (hdisposers : s'.disposers = s.disposers)
    (hquestions : s'.questions = s.questions.respond k registration.session.taskId) : Kept s' := by
  have htask : taskOf s.registrations k = some registration.session.taskId := by
    rw [taskOf, hk]
    rfl
  rcases s.questions.respond_cases k registration.session.taskId with
    ⟨hsame, -⟩ | ⟨ask, hask, hdelivered, hnew⟩
  · exact h.same hregistrations (by rw [hregistry]) hdisposers (hquestions.trans hsame)
  rw [hnew] at hquestions
  have hholder : ¬Superseded s.registrations k := fun hsup =>
    absurd (hdelivered.symm.trans (ho hsup _ htask ask hask)) (by simp)
  have old {taskId : String} {ask' : Ask} (hget : s'.questions.asks.get? taskId = some ask') :
      (taskId = registration.session.taskId ∧ ask'.id = ask.id) ∨
        s.questions.asks.get? taskId = some ask' := by
    rw [hquestions] at hget
    simp only [OrderedMap.get?_set] at hget
    split at hget
    · rename_i ht
      obtain rfl := Option.some.inj hget
      exact .inl ⟨ht, rfl⟩
    · exact .inr hget
  refine h.next hregistrations ?_ ?_ ?_ ?_ ?_ ?_
  · rw [hregistry]
    exact fun _ _ => id
  · rw [hdisposers]
    exact fun _ _ => id
  · rw [hquestions, ← hnew]
    exact h.asked.respond k registration.session.taskId
  · intro taskId ask' hget
    rcases old hget with ⟨rfl, -⟩ | hold
    · exact ⟨k, htask⟩
    · exact h.reached taskId ask' hold
  · rw [hquestions]
    intro response hmem
    rcases List.mem_append.mp hmem with hmem | hmem
    · exact h.sent response hmem
    · rw [List.mem_singleton.mp hmem]
      exact taskOf_lt htask
  · rw [deliverable_iff, hregistrations]
    intro taskId ask' hget hd j hj
    rcases old hget with ⟨rfl, hid⟩ | hold
    · -- the last registration of a task is one
      have hjk : j = k := by
        rcases Nat.lt_trichotomy j k with hlt | heq | hgt
        · exact absurd ⟨k, taskOf_lt htask, hlt, htask.trans hj.1.symm⟩ hj.2
        · exact heq
        · exact absurd ⟨j, taskOf_lt hj.1, hgt, hj.1.trans htask.symm⟩ hholder
      rw [hquestions, hid, hjk]
      exact ⟨_, List.mem_append_right _ (List.mem_singleton_self _), rfl, rfl, fun h => by cases h⟩
    · obtain ⟨response, hmem, hr⟩ :=
        (deliverable_iff s).mp h.deliverable taskId ask' hold hd j hj
      rw [hquestions]
      exact ⟨response, List.mem_append_left _ hmem, hr⟩

theorem conclude (h : Kept s) {i : Nat} {fate : Fate} {questions : Questions}
    (hs : s.questions.conclude i fate = some questions)
    (ho : fate = .lost → Orderly s (.lose i)) : Kept { s with questions } := by
  obtain ⟨registration, id, hi, rfl⟩ := Questions.conclude_cases hs
  refine h.next rfl (fun _ _ hheld => hheld) (fun _ _ hheld => hheld) (h.asked.conclude hs)
    h.reached ?_ ?_
  · intro response hmem
    rcases List.mem_or_eq_of_mem_set hmem with hmem | rfl
    · exact h.sent response hmem
    · exact h.sent ⟨registration, id, .pending⟩ (List.mem_of_getElem? hi)
  · rw [deliverable_iff]
    intro taskId ask hask hdelivered k hk
    obtain ⟨response, hmem, hregistration, hid, hfate⟩ :=
      (deliverable_iff s).mp h.deliverable taskId ask hask hdelivered k hk
    obtain ⟨j, hj⟩ := List.mem_iff_getElem?.mp hmem
    by_cases hij : i = j
    · subst hij
      obtain rfl := Option.some.inj (hi.symm.trans hj)
      have hmem' := List.mem_set (List.getElem?_eq_some_iff.mp hi).1 ⟨registration, id, fate⟩
      refine ⟨_, hmem', hregistration, hid, fun hlost => ?_⟩
      rw [← hregistration] at hk
      exact ho hlost _ hi taskId hk.1 ask hask hid.symm
    · refine ⟨response, ?_, hregistration, hid, hfate⟩
      exact List.mem_iff_getElem?.mpr ⟨j, (List.getElem?_set_ne hij).trans hj⟩

end Kept

theorem askBlanketHolderOnce_holders (registry : Registry) (session : BlanketHolderSession) :
    (registry.askBlanketHolderOnce session).holders = registry.holders := by
  unfold Registry.askBlanketHolderOnce
  split
  · rfl
  · split <;> rfl

variable {registry registry' : Registry}

theorem record_holders {i : Nat} (h : registry.record i = some registry') :
    registry'.holders = registry.holders := by
  unfold Registry.record at h
  split at h
  · obtain rfl := Option.some.inj h
    rfl
  · cases h

theorem settle_holders {i : Nat} {result : Except String (Option HolderDeclaration)}
    (h : registry.settle i result = some registry') : registry'.holders = registry.holders := by
  unfold Registry.settle at h
  split at h
  · obtain rfl := Option.some.inj h
    rfl
  · cases h

theorem resume_holders {call : Nat} (h : registry.resume call = some registry') :
    registry'.holders = registry.holders := by
  unfold Registry.resume at h
  split at h
  · split at h
    · obtain rfl := Option.some.inj h
      rfl
    · cases h
  · cases h

section
variable {s s' : Channel} {event : Event}

/-- **Every orderly event keeps what is kept.** -/
theorem step_kept (h : Kept s) (ho : Orderly s event) (hs : step s event = some s') :
    Kept s' := by
  cases event with
  | registerRemoteHolder taskId repositoryId leaseId =>
    obtain rfl := Option.some.inj hs
    exact h.register ho
  | dispose k =>
    simp only [step, Option.ite_none_left_eq_some, Option.map_eq_some_iff] at hs
    obtain ⟨-, registration, -, rfl⟩ := hs
    exact (h.release registration.session).same rfl rfl rfl rfl
  | releaseRemoteHolder taskId =>
    obtain rfl := Option.some.inj hs
    exact h.releaseRemoteHolder taskId
  | declare k now =>
    obtain ⟨registration, hk, rfl⟩ := Option.map_eq_some_iff.mp hs
    exact h.declare hk (ho registration hk) rfl rfl rfl rfl
  | askBlanketHolderOnce k now =>
    obtain ⟨registration, hk, rfl⟩ := Option.map_eq_some_iff.mp hs
    unfold Channel.askBlanketHolderOnce
    dsimp only
    split
    · rename_i hstarts
      exact h.declare hk (ho registration hk hstarts) rfl (askBlanketHolderOnce_holders _ _) rfl rfl
    · exact h.same rfl (askBlanketHolderOnce_holders _ _) rfl rfl
  | settleAsked i =>
    simp only [step, Channel.settleAsked, Option.bind_eq_bind, Option.bind_eq_some_iff,
      Option.pure_def, Option.some.injEq] at hs
    obtain ⟨p, -, promise, -, declaration, -, registry, hregistry, rfl⟩ := hs
    exact h.same rfl (settle_holders hregistry) rfl rfl
  | record i =>
    obtain ⟨registry, hregistry, rfl⟩ := Option.map_eq_some_iff.mp hs
    exact h.same rfl (record_holders hregistry) rfl rfl
  | resume call =>
    obtain ⟨registry, hregistry, rfl⟩ := Option.map_eq_some_iff.mp hs
    exact h.same rfl (resume_holders hregistry) rfl rfl
  | heartbeat k =>
    obtain ⟨registration, hk, rfl⟩ := Option.map_eq_some_iff.mp hs
    exact h.heartbeat hk ho rfl rfl rfl rfl
  | arrive i =>
    obtain ⟨questions, hquestions, rfl⟩ := Option.map_eq_some_iff.mp hs
    exact h.conclude hquestions nofun
  | lose i =>
    obtain ⟨questions, hquestions, rfl⟩ := Option.map_eq_some_iff.mp hs
    exact h.conclude hquestions fun _ => ho
  | rememberWorkingChanges taskId changes now =>
    obtain rfl := Option.some.inj hs
    exact h.same rfl rfl rfl rfl
  | settleDeclaration taskId askId declaration changes now =>
    obtain rfl := Option.some.inj hs
    unfold Channel.settleDeclaration
    split
    · exact h
    · split
      · exact h
      · cases changes with
        | none => exact h.settled rfl (fun _ _ => id) (fun _ _ => id) rfl
        | some changes => exact h.settled rfl (fun _ _ => id) (fun _ _ => id) rfl

/-! ## What an orderly event does -/

variable {taskId : String} {k : Nat} {registration : Registration}

theorem deregister_other (registry : Registry) (session : BlanketHolderSession)
    (hne : taskId ≠ session.taskId) :
    (registry.deregister session).holders.get? taskId = registry.holders.get? taskId ∧
      (registry.deregister session).asking.get? taskId = registry.asking.get? taskId ∧
      (registry.deregister session).answered.get? taskId = registry.answered.get? taskId := by
  unfold Registry.deregister
  split
  · simp only [OrderedMap.get?_delete, if_neg hne, and_self]
  · exact ⟨rfl, rfl, rfl⟩

theorem release_other (h : Kept s) (session : BlanketHolderSession) (hne : taskId ≠ session.taskId) :
    Same s (s.release session) taskId := by
  obtain ⟨hholder, hasking, hanswered⟩ := deregister_other s.registry session hne
  refine ⟨?_, ?_, ?_, ?_, hholder, hasking, hanswered⟩
  · exact (s.questions.settleAsk_asks session.taskId taskId none).trans (if_neg hne)
  · exact fun p hp => (Questions.settleAsk_open h.asked _ _ none p).mpr ⟨hne, hp⟩
  · exact (OrderedMap.get?_delete _ _ _).trans (if_neg hne)
  · exact (OrderedMap.get?_delete _ _ _).trans (if_neg hne)

/-- The disposer of a task registered again, where nothing of the later registration is
left for it to take. -/
theorem release_superseded (h : Kept s) (hk : s.registrations[k]? = some registration)
    (hsup : Superseded s.registrations k)
    (hask : s.questions.asks.get? registration.session.taskId = none)
    (hreading : s.readings.get? registration.session.taskId = none)
    (hdisposer : s.disposers.get? registration.session.taskId = none) :
    Same s (s.release registration.session) registration.session.taskId := by
  have hregistry : s.registry.deregister registration.session = s.registry :=
    if_neg fun hheld => h.newest k registration hk hheld hsup
  have hquestions : s.questions.settleAsk registration.session.taskId none = s.questions := by
    unfold Questions.settleAsk
    rw [hask]
  unfold Channel.release
  rw [hregistry, hquestions]
  refine ⟨rfl, fun _ => id, ?_, ?_, rfl, rfl, rfl⟩
  · rw [OrderedMap.get?_delete, if_pos rfl, hreading]
  · rw [OrderedMap.get?_delete, if_pos rfl, hdisposer]

theorem taskOf_eq {registrations : List Registration} (hk : registrations[k]? = some registration) :
    taskOf registrations k = some registration.session.taskId := by
  rw [taskOf, hk]
  rfl

theorem dispose_allowed (h : Kept s) (ho : Orderly s (.dispose k))
    (hs : step s (.dispose k) = some s') : Allowed s (.dispose k) s' := by
  simp only [step, Option.ite_none_left_eq_some, Option.map_eq_some_iff] at hs
  obtain ⟨-, registration, hk, rfl⟩ := hs
  intro j taskId hkj hj
  have hsame : Same s (s.release registration.session) taskId := by
    by_cases ht : taskId = registration.session.taskId
    · subst ht
      have hsup : Superseded s.registrations k :=
        ⟨j, taskOf_lt hj, hkj, hj.trans (taskOf_eq hk).symm⟩
      obtain ⟨hask, hreading, hdisposer⟩ := ho hsup _ (taskOf_eq hk)
      exact release_superseded h hk hsup hask hreading hdisposer
    · exact release_other h _ ht
  exact ⟨hsame.ask, hsame.promises, hsame.reading, hsame.disposer, hsame.holder, hsame.asking,
    hsame.answered⟩

theorem releaseRemoteHolder_allowed (h : Kept s) (ho : Orderly s (.releaseRemoteHolder taskId))
    (hs : step s (.releaseRemoteHolder taskId) = some s') :
    Allowed s (.releaseRemoteHolder taskId) s' := by
  obtain rfl := Option.some.inj hs
  intro p
  unfold Channel.releaseRemoteHolder
  cases hdisposer : s.disposers.get? taskId with
  | none =>
    intro hp
    obtain ⟨ask, hask, -⟩ := (h.asked.waits taskId p).mp hp
    exact ho (by rw [hask]; simp) hdisposer
  | some session =>
    intro hp
    obtain ⟨hne, -⟩ := (Questions.settleAsk_open h.asked session.taskId taskId none p).mp hp
    exact hne (h.standing taskId session hdisposer).symm

theorem settleDeclaration_allowed (h : Kept s) {taskId askId : String}
    {declaration : Option HolderDeclaration}
    {changes : Option (List (String × FilePatchStatus))} {now : Nat}
    (hs : step s (.settleDeclaration taskId askId declaration changes now) = some s') :
    Allowed s (.settleDeclaration taskId askId declaration changes now) s' := by
  obtain rfl := Option.some.inj hs
  intro p hp
  unfold Channel.settleDeclaration at hp ⊢
  cases hask : s.questions.asks.get? taskId with
  | none =>
    rw [hask] at hp
    exact absurd rfl hp
  | some ask =>
    rw [hask] at hp
    dsimp only at hp ⊢
    split at hp
    · exact absurd rfl hp
    · rename_i hid
      have hquestions : (match changes with
          | none => s
          | some changes => s.rememberWorkingChanges taskId changes now).questions =
            s.questions := by
        cases changes <;> rfl
      rw [if_neg hid]
      dsimp only at hp ⊢
      rw [hquestions, Questions.settleAsk_promises h.asked] at hp ⊢
      cases hpromise : s.questions.promises[p]? with
      | none =>
        rw [hpromise] at hp
        exact absurd rfl hp
      | some promise =>
        rw [hpromise] at hp
        by_cases heq : promise = ⟨taskId, none⟩
        · rw [heq] at hpromise
          obtain ⟨ask', hask', hmem⟩ := (h.asked.waits taskId p).mp hpromise
          obtain rfl := Option.some.inj (hask.symm.trans hask')
          refine ⟨by rw [Option.map_some, if_pos heq], ask, rfl, not_not.mp hid, hmem⟩
        · rw [Option.map_some, if_neg heq] at hp
          exact absurd rfl hp

theorem allowed_of_orderly (h : Kept s) (ho : Orderly s event) (hs : step s event = some s') :
    Allowed s event s' := by
  cases event with
  | dispose k => exact dispose_allowed h ho hs
  | releaseRemoteHolder taskId => exact releaseRemoteHolder_allowed h ho hs
  | settleDeclaration => exact settleDeclaration_allowed h hs
  | _ => trivial

/-! ## What an event that is not orderly does -/

theorem not_deliverable (taskId : String) (ask : Ask) (k : Nat)
    (hask : s.questions.asks.get? taskId = some ask) (hdelivered : ask.delivered = true)
    (hk : IsHolder s.registrations k taskId)
    (hnone : ∀ response ∈ s.questions.responses, response.registration = k →
      response.askId = ask.id → response.fate = .lost) : ¬Deliverable s := by
  intro h
  obtain ⟨response, hmem, hregistration, hid, hfate⟩ :=
    (deliverable_iff s).mp h taskId ask hask hdelivered k hk
  exact hfate (hnone response hmem hregistration hid)

theorem register_orderly (h : Kept s) {taskId repositoryId leaseId : String}
    (hd : Deliverable (s.registerRemoteHolder taskId repositoryId leaseId)) :
    Orderly s (.registerRemoteHolder taskId repositoryId leaseId) := by
  intro ask hask hdelivered hdisposer
  refine not_deliverable taskId ask s.registrations.length ?_ hdelivered ?_ ?_ hd
  · simp only [Channel.registerRemoteHolder, Channel.releaseRemoteHolder, hdisposer]
    exact hask
  · simp only [Channel.registerRemoteHolder, Channel.releaseRemoteHolder, hdisposer]
    exact ⟨by simp [taskOf_snoc], not_superseded_last⟩
  · simp only [Channel.registerRemoteHolder, Channel.releaseRemoteHolder, hdisposer]
    intro response hmem hregistration
    exact absurd (h.sent response hmem) (by omega)

theorem dispose_orderly (hs : step s (.dispose k) = some s') (ha : Allowed s (.dispose k) s') :
    Orderly s (.dispose k) := by
  simp only [step, Option.ite_none_left_eq_some, Option.map_eq_some_iff] at hs
  obtain ⟨-, registration, hk, rfl⟩ := hs
  rintro ⟨j, -, hkj, hj⟩ taskId htask
  have hsame := ha j taskId hkj (hj.trans htask)
  obtain rfl := Option.some.inj ((taskOf_eq hk).symm.trans htask)
  refine ⟨?_, ?_, ?_⟩
  · rw [← hsame.ask]
    exact (s.questions.settleAsk_asks _ _ none).trans (if_pos rfl)
  · rw [← hsame.reading]
    exact (OrderedMap.get?_delete _ _ _).trans (if_pos rfl)
  · rw [← hsame.disposer]
    exact (OrderedMap.get?_delete _ _ _).trans (if_pos rfl)

theorem releaseRemoteHolder_orderly (h : Kept s)
    (ha : Allowed s (.releaseRemoteHolder taskId) (s.releaseRemoteHolder taskId)) :
    Orderly s (.releaseRemoteHolder taskId) := by
  intro hopen hdisposer
  obtain ⟨ask, hask⟩ := Option.ne_none_iff_exists'.mp hopen
  obtain ⟨p, hp⟩ := List.exists_mem_of_ne_nil _ (h.asked.awaited taskId ask hask)
  refine ha p ?_
  unfold Channel.releaseRemoteHolder
  rw [hdisposer]
  exact (h.asked.waits taskId p).mpr ⟨ask, hask, hp⟩

theorem declare_fresh {q : Questions} {now : Nat}
    (hd : ((q.declare registration.session.taskId registration.leaseId now).started.map
      askId).Nodup) : q.Fresh registration now := by
  intro hnone hmem
  unfold Questions.declare at hd
  rw [hnone] at hd
  simp only [List.map_append, List.nodup_append] at hd
  exact hd.2.2 _ (List.mem_map_of_mem hmem) _ (by simp) rfl

theorem heartbeat_orderly (h : Kept s) (hk : s.registrations[k]? = some registration)
    (hd : Deliverable { s with questions := s.questions.respond k registration.session.taskId }) :
    Orderly s (.heartbeat k) := by
  intro hsup taskId htask ask hask
  obtain rfl := Option.some.inj ((taskOf_eq hk).symm.trans htask)
  rcases s.questions.respond_cases k registration.session.taskId with
    ⟨-, hcarried⟩ | ⟨ask', hask', hdelivered, hnew⟩
  · exact hcarried ask hask
  exfalso
  obtain rfl := Option.some.inj (hask.symm.trans hask')
  obtain ⟨j, hj⟩ := exists_holder htask
  rw [hnew] at hd
  refine absurd hd (not_deliverable registration.session.taskId
    { ask with delivered := true } j ?_ rfl hj ?_)
  · simp only [OrderedMap.get?_set, if_true]
  · intro response hmem hregistration hid
    rcases List.mem_append.mp hmem with hmem | hmem
    · obtain ⟨i, hi⟩ := List.mem_iff_getElem?.mp hmem
      exact absurd hid (h.asked.fresh _ _ hask hdelivered i response hi)
    · rw [List.mem_singleton.mp hmem] at hregistration
      have hkj : k = j := hregistration
      exact absurd (hkj ▸ hsup) hj.2

theorem lose_orderly (h : Kept s) {i : Nat} {questions : Questions}
    (hs : s.questions.conclude i .lost = some questions)
    (hd : Deliverable { s with questions }) : Orderly s (.lose i) := by
  obtain ⟨registration, id, hi, rfl⟩ := Questions.conclude_cases hs
  intro response hi' taskId htask ask hask hid
  obtain rfl := Option.some.inj (hi.symm.trans hi')
  have hdelivered : ask.delivered = true := by
    rw [← Bool.not_eq_false]
    exact fun hnot => h.asked.fresh taskId ask hask hnot i _ hi hid.symm
  obtain ⟨j, hj⟩ := exists_holder htask
  refine absurd hd (not_deliverable _ _ _ hask hdelivered hj ?_)
  intro response hmem _ hid'
  obtain ⟨m, hm⟩ := List.mem_iff_getElem?.mp hmem
  by_cases him : i = m
  · subst him
    rw [List.getElem?_set_self (List.getElem?_eq_some_iff.mp hi).1] at hm
    rw [← Option.some.inj hm]
  · rw [List.getElem?_set_ne him] at hm
    exact absurd (h.asked.once i m _ _ hi hm (hid.symm.trans hid'.symm)) him

/-- **An event keeps the channel with its registration exactly when it is orderly.** -/
theorem keeps_iff (h : Kept s) (hs : step s event = some s') :
    Keeps s event ↔ Orderly s event := by
  constructor
  · intro hkeeps
    obtain ⟨ha, hids, hd⟩ := hkeeps s' hs
    cases event with
    | registerRemoteHolder taskId repositoryId leaseId =>
      obtain rfl := Option.some.inj hs
      exact register_orderly h hd
    | dispose k => exact dispose_orderly hs ha
    | releaseRemoteHolder taskId =>
      obtain rfl := Option.some.inj hs
      exact releaseRemoteHolder_orderly h ha
    | declare k now =>
      obtain ⟨registration, hk, rfl⟩ := Option.map_eq_some_iff.mp hs
      rintro registration' hk'
      obtain rfl := Option.some.inj (hk.symm.trans hk')
      exact declare_fresh hids
    | askBlanketHolderOnce k now =>
      obtain ⟨registration, hk, rfl⟩ := Option.map_eq_some_iff.mp hs
      rintro registration' hk' hstarts
      obtain rfl := Option.some.inj (hk.symm.trans hk')
      unfold Channel.askBlanketHolderOnce at hids
      rw [if_pos hstarts] at hids
      exact declare_fresh hids
    | heartbeat k =>
      obtain ⟨registration, hk, rfl⟩ := Option.map_eq_some_iff.mp hs
      exact heartbeat_orderly h hk hd
    | lose i =>
      obtain ⟨questions, hquestions, rfl⟩ := Option.map_eq_some_iff.mp hs
      exact lose_orderly h hquestions hd
    | settleAsked | record | resume | arrive | rememberWorkingChanges | settleDeclaration =>
      trivial
  · intro ho t ht
    have hkept := step_kept h ho ht
    exact ⟨allowed_of_orderly h ho ht, distinctIds hkept.asked, hkept.deliverable⟩

end

/-! ## Runs -/

/-- **The channel stays with its registration exactly in the runs whose events are
orderly.** -/
theorem channel_kept_iff {events : List Event} {s : Channel}
    (h : run step .empty events = some s) :
    Throughout step Keeps .empty events ↔ Throughout step Orderly .empty events :=
  throughout_iff_of_inv (fun _ _ _ => step_kept) (fun _ _ _ => keeps_iff) kept_empty h

/-- A holder is asked, is told on its heartbeat, answers and is let go of. -/
def askedAndAnswered : List Event :=
  [.registerRemoteHolder "task" "repo" "lease", .rememberWorkingChanges "task" [] 1,
    .askBlanketHolderOnce 0 2, .heartbeat 0, .arrive 0,
    .settleDeclaration "task" "ask_lease_2" (some ⟨["a.ts"], []⟩) none 3, .settleAsked 0,
    .registerRemoteHolder "task" "repo" "lease2", .releaseRemoteHolder "task"]

theorem channel_kept_iff_answered :
    (run step .empty askedAndAnswered).isSome ∧ Throughout step Keeps .empty askedAndAnswered := by
  have hrun : (run step .empty askedAndAnswered).isSome := by decide
  refine ⟨hrun, ?_⟩
  obtain ⟨s, hs⟩ := Option.isSome_iff_exists.mp hrun
  exact (channel_kept_iff hs).mpr (by decide)

def askedInVain : List Event :=
  [.registerRemoteHolder "task" "repo" "lease", .declare 0 2, .heartbeat 0, .lose 0]

/-- **A lost response leaves an ask open that no heartbeat is handed again.** -/
theorem lost_unasked :
    ¬∀ events s, run step .empty events = some s → Throughout step Keeps .empty events := by
  intro h
  obtain ⟨-, h⟩ := h askedInVain _ rfl
  obtain ⟨-, h⟩ := h _ rfl
  obtain ⟨-, h⟩ := h _ rfl
  obtain ⟨hkeeps, -⟩ := h _ rfl
  obtain ⟨-, -, hd⟩ := hkeeps _ rfl
  refine absurd hd (not_deliverable "task" ⟨"ask_lease_2", true, [0]⟩ 0
    ?_ rfl ⟨by decide, by decide⟩ ?_)
  · decide
  · decide

end AgenticGit.Cli.RemoteHolders
