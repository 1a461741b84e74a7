import AgenticGit.Lib.Turns
import AgenticGit.Lib.Runs

/- One SQLite connection shared by asynchronous callers: the transaction
   bookkeeping of `sqlite-store.ts`.

   A caller runs a method of one statement, a method bracketed by
   `beginExclusively`, `commit` and `rollback`, or a body handed to
   `runInTransaction` (`appendAudit`, the other user of `exclusively`, is such a
   body). It can lose the processor at every `await`, so each stretch between
   two of them is an event of its own, and the caller stands in a `Phase`.

   Correspondence (TypeScript ↔ Lean):
     `db.exec`, `db.prepare(..).run`            ↔ `execBegin`, `execCommit`,
                                                  `execRollback`, `execWrite`
     what SQLite answers to a statement         ↔ `Answer`
     `transactionDepth`, `releaseWriteTurn`     ↔ the fields of those names
     `writeQueue`, one promise for each turn    ↔ `turns`, whether it resolved
     `begin`, `endWriteTurn`, `commit`, `rollback` ↔ the functions of those names
     the async context `inTransaction` marks    ↔ `Phase.working .body`

   What is proved:
     1. `kept_step` — a step that meets `InTurn` keeps the discipline.
     2. `writes_survive` — so every run of such steps has one owner at a time,
        no turn nobody holds, and every acknowledged write in the database.
     3. `acknowledged_write_undone` — a statement out of turn breaks the last.
     4. `turn_lost_at_begin` — after a method's `BEGIN` has thrown nobody gets into a
        transaction again. -/
namespace AgenticGit.Persistence.Sqlite
open AgenticGit.Turns AgenticGit.Runs

/-! ## The connection -/

/-- What SQLite answers: done, refused, or refused with the open transaction
rolled back by SQLite itself. -/
inductive Answer where
  | ok
  | fails
  | aborts
  deriving DecidableEq, Repr

/-- The rows written, committed or in the transaction that is open. -/
structure Connection where
  committed : List Nat := []
  uncommitted : Option (List Nat) := none
  deriving DecidableEq, Repr

namespace Connection

def rows (db : Connection) : List Nat := db.committed ++ db.uncommitted.getD []

/-- `BEGIN IMMEDIATE`: refused inside a transaction. -/
def execBegin (db : Connection) (answer : Answer) : Connection × Bool :=
  match db.uncommitted, answer with
  | none, .ok => ({ db with uncommitted := some [] }, true)
  | _, _ => (db, false)

/-- `COMMIT`: refused outside a transaction. -/
def execCommit (db : Connection) (answer : Answer) : Connection × Bool :=
  match db.uncommitted, answer with
  | some written, .ok => ({ committed := db.committed ++ written, uncommitted := none }, true)
  | some _, .aborts => ({ db with uncommitted := none }, false)
  | _, _ => (db, false)

/-- `ROLLBACK`: refused outside a transaction. -/
def execRollback (db : Connection) (answer : Answer) : Connection × Bool :=
  match db.uncommitted, answer with
  | some _, .ok => ({ db with uncommitted := none }, true)
  | _, _ => (db, false)

/-- A statement that writes a row, into whatever transaction is open. -/
def execWrite (db : Connection) (row : Nat) (answer : Answer) : Connection × Bool :=
  match answer, db.uncommitted with
  | .ok, none => ({ db with committed := db.committed ++ [row] }, true)
  | .ok, some written => ({ db with uncommitted := some (written ++ [row]) }, true)
  | .fails, _ => (db, false)
  | .aborts, _ => ({ db with uncommitted := none }, false)

end Connection

/-! ## The callers -/

/-- How a caller brackets its transaction: a method between `beginExclusively`
and `commit` or `rollback`, or a body inside `runInTransaction`. -/
inductive Kind where
  | method
  | body
  deriving DecidableEq, Repr

/-- Where a caller stands. `waits` is at `await ahead`, `working` between
`begin` and `commit` or `rollback` (`joined` counts the calls of its own that
have joined its transaction), `leaving` before the `finally` of `exclusively`. -/
inductive Phase where
  | outside
  | waits (kind : Kind) (turn : Nat)
  | working (kind : Kind) (turn : Nat) (owned : Bool) (joined : Nat) (writes : List Nat)
  | leaving (turn : Nat) (writes : List Nat)
  deriving DecidableEq, Repr

def Phase.turn : Phase → Option Nat
  | .outside => none
  | .waits _ turn => some turn
  | .working _ turn _ _ _ => some turn
  | .leaving turn _ => some turn

def Phase.going : Phase → Bool
  | .outside => false
  | .waits _ _ => false
  | .working _ _ _ _ _ => true
  | .leaving _ _ => true

/-- Whether a caller may commit or roll back the open transaction. -/
def Phase.owns : Phase → Bool
  | .working _ _ owned _ _ => owned
  | _ => false

/-! ## The store -/

/-- The store, its callers, and the rows whose write was answered with success
to a caller outside any transaction. -/
structure Store where
  db : Connection := {}
  transactionDepth : Nat := 0
  turns : List Bool := []
  releaseWriteTurn : Option Nat := none
  callers : Nat → Phase := fun _ => .outside
  acknowledged : List Nat := []

namespace Store

def put (s : Store) (i : Nat) (phase : Phase) : Store :=
  { s with callers := Function.update s.callers i phase }

/-- Opens a write transaction, or joins the one already open. The answer says
whether the caller owns it; there is none when `BEGIN` throws. -/
def begin (s : Store) (answer : Answer) : Store × Option Bool :=
  if 0 < s.transactionDepth then
    ({ s with transactionDepth := s.transactionDepth + 1 }, some false)
  else
    let begun := s.db.execBegin answer
    if begun.2 then ({ s with db := begun.1, transactionDepth := 1 }, some true)
    else ({ s with db := begun.1 }, none)

/-- Hands the connection on, if this caller was holding a turn for it. -/
def endWriteTurn (s : Store) : Store :=
  match s.releaseWriteTurn with
  | none => s
  | some turn => { s with turns := s.turns.set turn true, releaseWriteTurn := none }

/-- Also says whether it returned: a `COMMIT` that throws leaves before
`endWriteTurn`. -/
def commit (s : Store) (owned : Bool) (answer : Answer) : Store × Bool :=
  let s := { s with transactionDepth := s.transactionDepth - 1 }
  if owned then
    let done := s.db.execCommit answer
    if done.2 then ({ s with db := done.1 }.endWriteTurn, true)
    else ({ s with db := done.1 }, false)
  else (s, true)

/-- A `ROLLBACK` that throws leaves before `endWriteTurn`. -/
def rollback (s : Store) (owned : Bool) (answer : Answer) : Store :=
  let s := { s with transactionDepth := s.transactionDepth - 1 }
  if owned then
    let done := s.db.execRollback answer
    if done.2 then { s with db := done.1 }.endWriteTurn else { s with db := done.1 }
  else s

end Store

/-! ## Steps -/

/-- What caller `i` does next, with SQLite's answers where it is asked. -/
inductive Event where
  /-- A method of one statement, or a statement of the open transaction. -/
  | statement (i row : Nat) (answer : Answer)
  /-- Takes the next turn of the write queue. -/
  | arrive (i : Nat) (kind : Kind)
  /-- Goes on after `await ahead`, to `begin`. -/
  | resume (i : Nat) (answer : Answer)
  /-- A method called from the body joins the transaction. -/
  | join (i : Nat)
  /-- The joined method commits or rolls back. -/
  | settle (i : Nat)
  /-- Reaches `commit`, and `rollback` when `COMMIT` throws. -/
  | commit (i : Nat) (answer undo : Answer)
  /-- Throws before `commit`, and is rolled back. -/
  | fail (i : Nat) (undo : Answer)
  /-- The `finally` of `exclusively`. -/
  | leave (i : Nat)
  deriving DecidableEq, Repr

/-- Where a caller stands once its `rollback` is over and it throws. -/
def Kind.thrown : Kind → Nat → Phase
  | .method, _ => .outside
  | .body, turn => .leaving turn []

/-- A `method` returns to its caller as soon as it has committed; a `body` has
the `finally` ahead of it. -/
def Store.committed (s : Store) (i : Nat) (kind : Kind) (turn : Nat) (writes : List Nat) : Store :=
  match kind with
  | .method => { s with acknowledged := s.acknowledged ++ writes }.put i .outside
  | .body => s.put i (.leaving turn writes)

def step (s : Store) : Event → Option Store
  | .statement i row answer =>
    let done := s.db.execWrite row answer
    match s.callers i with
    | .outside =>
      some { s with
        db := done.1
        acknowledged := if done.2 then s.acknowledged ++ [row] else s.acknowledged }
    | .working kind turn owned joined writes =>
      some ({ s with db := done.1 }.put i
        (.working kind turn owned joined (if done.2 then writes ++ [row] else writes)))
    | _ => none
  | .arrive i kind =>
    match s.callers i with
    | .outside =>
      some ({ s with turns := s.turns ++ [false] }.put i (.waits kind s.turns.length))
    | _ => none
  | .resume i answer =>
    match s.callers i with
    | .waits kind turn =>
      if Come s.turns turn then
        let s := match kind with
          | .method => { s with releaseWriteTurn := some turn }
          | .body => s
        match s.begin answer with
        | (s, some owned) => some (s.put i (.working kind turn owned 0 []))
        | (s, none) => some (s.put i (kind.thrown turn))
      else none
    | _ => none
  | .join i =>
    match s.callers i with
    | .working .body turn owned joined writes =>
      match s.begin .ok with
      | (s, some false) => some (s.put i (.working .body turn owned (joined + 1) writes))
      | _ => none
    | _ => none
  | .settle i =>
    match s.callers i with
    | .working kind turn owned (joined + 1) writes =>
      some ((s.commit false .ok).1.put i (.working kind turn owned joined writes))
    | _ => none
  | .commit i answer undo =>
    match s.callers i with
    | .working kind turn owned 0 writes =>
      match s.commit owned answer with
      | (s, true) => some (s.committed i kind turn writes)
      | (s, false) => some ((s.rollback owned undo).put i (kind.thrown turn))
    | _ => none
  | .fail i undo =>
    match s.callers i with
    | .working kind turn owned 0 _ =>
      some ((s.rollback owned undo).put i (kind.thrown turn))
    | _ => none
  | .leave i =>
    match s.callers i with
    | .leaving turn writes =>
      some ({ s with
        turns := s.turns.set turn true
        acknowledged := s.acknowledged ++ writes }.put i .outside)
    | _ => none

/-! ## The discipline -/

/-- What callers may rely on. -/
structure Disciplined (s : Store) : Prop where
  alone : ∀ i j, (s.callers i).owns = true → (s.callers j).owns = true → i = j
  held : ∀ turn : Nat, s.turns[turn]? = some false → ∃ i, (s.callers i).turn = some turn
  saved : ∀ row ∈ s.acknowledged, row ∈ s.db.rows

/-- Whether the caller is one that came through `beginExclusively`. -/
def Phase.isMethod : Phase → Bool
  | .waits .method _ => true
  | .working .method _ _ _ _ => true
  | _ => false

/-- A caller outside any transaction writes while none is open, and where a
method's `BEGIN` or `ROLLBACK` is run it does not throw. -/
def InTurn (s : Store) : Event → Prop
  | .statement i _ answer => s.callers i = .outside → answer = .ok → s.db.uncommitted = none
  | .resume i answer => (s.callers i).isMethod = true → (s.db.execBegin answer).2 = true
  | .commit i answer undo => (s.callers i).isMethod = true → (s.db.execCommit answer).2 = false →
      ((s.db.execCommit answer).1.execRollback undo).2 = true
  | .fail i undo => (s.callers i).isMethod = true → (s.db.execRollback undo).2 = true
  | _ => True

instance (s : Store) : DecidablePred (InTurn s)
  | .statement _ _ _ => inferInstanceAs (Decidable (_ → _ → _))
  | .resume _ _ => inferInstanceAs (Decidable (_ → _))
  | .commit _ _ _ => inferInstanceAs (Decidable (_ → _ → _))
  | .fail _ _ => inferInstanceAs (Decidable (_ → _))
  | .arrive _ _ => isTrue trivial
  | .join _ => isTrue trivial
  | .settle _ => isTrue trivial
  | .leave _ => isTrue trivial

/-- What holds of the store while a caller is between `begin` and `commit`. -/
structure Works (s : Store) (kind : Kind) (turn : Nat) (owned : Bool) (joined : Nat)
    (writes : List Nat) : Prop where
  owned : owned = true
  depth : s.transactionDepth = joined + 1
  release : s.releaseWriteTurn = if kind = .method then some turn else none
  wrote : ∀ written, s.db.uncommitted = some written →
    ∀ row ∈ writes, row ∈ s.db.committed ++ written

/-- The invariant behind `Disciplined`. -/
structure Kept (s : Store) : Prop where
  queue : Orderly s.turns (fun i => (s.callers i).turn) (fun i => (s.callers i).going)
  work : ∀ i kind turn owned joined writes,
    s.callers i = .working kind turn owned joined writes → Works s kind turn owned joined writes
  idle : (∀ i kind turn owned joined writes,
    s.callers i ≠ .working kind turn owned joined writes) →
    s.transactionDepth = 0 ∧ s.releaseWriteTurn = none
  left : ∀ i turn writes, s.callers i = .leaving turn writes → ∀ row ∈ writes, row ∈ s.db.committed
  saved : ∀ row ∈ s.acknowledged, row ∈ s.db.committed

theorem kept_init : Kept {} where
  queue := Orderly.empty
  work := by simp
  idle := by simp
  left := by simp
  saved := by simp

theorem Kept.disciplined {s : Store} (h : Kept s) : Disciplined s where
  alone i j hi hj := by
    apply h.queue.alone
    · cases hp : s.callers i <;> simp_all [Phase.owns, Phase.going]
    · cases hp : s.callers j <;> simp_all [Phase.owns, Phase.going]
  held := h.queue.given
  saved row hrow := List.mem_append_left _ (h.saved row hrow)

/-! ## One step -/

theorem turn_put (s : Store) (i : Nat) (phase : Phase) :
    (fun j => ((s.put i phase).callers j).turn) =
      Function.update (fun j => (s.callers j).turn) i phase.turn :=
  funext fun j => Function.apply_update (fun _ p => Phase.turn p) s.callers i phase j

theorem going_put (s : Store) (i : Nat) (phase : Phase) :
    (fun j => ((s.put i phase).callers j).going) =
      Function.update (fun j => (s.callers j).going) i phase.going :=
  funext fun j => Function.apply_update (fun _ p => Phase.going p) s.callers i phase j

theorem kept_put {s : Store} {i : Nat} {phase : Phase}
    (hq : Orderly s.turns (Function.update (fun j => (s.callers j).turn) i phase.turn)
      (Function.update (fun j => (s.callers j).going) i phase.going))
    (ho : ∀ j, j ≠ i → (s.callers j).going = false)
    (hw : ∀ kind turn owned joined writes, phase = .working kind turn owned joined writes →
      Works s kind turn owned joined writes)
    (hi : (∀ kind turn owned joined writes, phase ≠ .working kind turn owned joined writes) →
      s.transactionDepth = 0 ∧ s.releaseWriteTurn = none)
    (hl : ∀ turn writes, phase = .leaving turn writes → ∀ row ∈ writes, row ∈ s.db.committed)
    (hs : ∀ row ∈ s.acknowledged, row ∈ s.db.committed) : Kept (s.put i phase) := by
  have at_i {j : Nat} (hj : ((s.put i phase).callers j).going = true) : j = i := by
    by_contra hne
    have := ho j hne
    simp_all [Store.put, Function.update_of_ne]
  have self : (s.put i phase).callers i = phase := Function.update_self ..
  constructor
  · rw [turn_put, going_put]
    exact hq
  · intro j kind turn owned joined writes hj
    obtain rfl := at_i (by rw [hj]; rfl)
    obtain ⟨h1, h2, h3, h4⟩ := hw kind turn owned joined writes (self ▸ hj)
    exact ⟨h1, h2, h3, h4⟩
  · intro hno
    exact hi fun kind turn owned joined writes hp =>
      hno i kind turn owned joined writes (self.trans hp)
  · intro j turn writes hj
    obtain rfl := at_i (by rw [hj]; rfl)
    exact hl turn writes (self ▸ hj)
  · exact hs

theorem Kept.others {s : Store} (h : Kept s) {i : Nat} (hi : (s.callers i).going = true)
    (j : Nat) (hj : j ≠ i) : (s.callers j).going = false := by
  by_contra hg
  exact hj (h.queue.alone (by simpa using hg) hi)

theorem Kept.same_turn {s : Store} (h : Kept s) {i : Nat} {phase : Phase}
    (ht : phase.turn = (s.callers i).turn) (hg : phase.going = (s.callers i).going) :
    Orderly s.turns (Function.update (fun j => (s.callers j).turn) i phase.turn)
      (Function.update (fun j => (s.callers j).going) i phase.going) := by
  rw [ht, hg, Function.update_eq_self, Function.update_eq_self]
  exact h.queue

theorem committed_mono (db : Connection) (row : Nat) (answer : Answer) :
    ∀ r ∈ db.committed, r ∈ (db.execWrite row answer).1.committed := by
  intro r hr
  unfold Connection.execWrite
  split
  · exact List.mem_append_left _ hr
  · exact hr
  · exact hr
  · exact hr

theorem execWrite_wrote {db : Connection} {row : Nat} {answer : Answer} {writes : List Nat}
    (h : ∀ written, db.uncommitted = some written → ∀ r ∈ writes, r ∈ db.committed ++ written)
    (written : List Nat) (hw : (db.execWrite row answer).1.uncommitted = some written) :
    ∀ r ∈ (if (db.execWrite row answer).2 then writes ++ [row] else writes),
      r ∈ (db.execWrite row answer).1.committed ++ written := by
  unfold Connection.execWrite at hw ⊢
  split at hw
  · rename_i hnone
    rw [hnone] at hw
    cases hw
  · rename_i before hbefore
    obtain rfl := Option.some.inj hw
    intro r hr
    rcases List.mem_append.mp hr with hr | hr
    · rw [← List.append_assoc]
      exact List.mem_append_left _ (h before hbefore r hr)
    · exact List.mem_append_right _ (List.mem_append_right _ hr)
  · exact h written hw
  · cases hw

theorem kept_statement_outside {s : Store} {row : Nat} {answer : Answer} (h : Kept s)
    (ho : answer = .ok → s.db.uncommitted = none) :
    Kept { s with
      db := (s.db.execWrite row answer).1
      acknowledged := if (s.db.execWrite row answer).2 then s.acknowledged ++ [row]
        else s.acknowledged } := by
  refine ⟨h.queue, fun i kind turn owned joined writes hi => ?_, h.idle,
    fun i turn writes hi r hr => committed_mono _ _ _ r (h.left i turn writes hi r hr), ?_⟩
  · obtain ⟨h1, h2, h3, h4⟩ := h.work i kind turn owned joined writes hi
    refine ⟨h1, h2, h3, fun written hw r hr => ?_⟩
    cases answer with
    | ok => simp [Connection.execWrite, ho rfl] at hw
    | fails => exact h4 written hw r hr
    | aborts => simp [Connection.execWrite] at hw
  · cases answer with
    | ok =>
      intro r hr
      simp only [Connection.execWrite, ho rfl] at hr ⊢
      rcases List.mem_append.mp hr with hr | hr
      · exact List.mem_append_left _ (h.saved r hr)
      · exact List.mem_append_right _ hr
    | fails => exact h.saved
    | aborts => exact h.saved

theorem kept_statement_working {s : Store} {i row turn joined : Nat} {answer : Answer}
    {kind : Kind} {owned : Bool} {writes : List Nat} (h : Kept s)
    (hi : s.callers i = .working kind turn owned joined writes) :
    Kept (({ s with db := (s.db.execWrite row answer).1 } : Store).put i
      (.working kind turn owned joined
        (if (s.db.execWrite row answer).2 then writes ++ [row] else writes))) := by
  obtain ⟨h1, h2, h3, h4⟩ := h.work i kind turn owned joined writes hi
  apply kept_put
  · exact h.same_turn (by rw [hi]; rfl) (by rw [hi]; rfl)
  · exact h.others (by rw [hi]; rfl)
  · intro kind' turn' owned' joined' writes' hp
    cases hp
    exact ⟨h1, h2, h3, execWrite_wrote h4⟩
  · intro hno
    exact absurd rfl (hno _ _ _ _ _)
  · intro turn' writes' hp
    cases hp
  · intro r hr
    exact committed_mono _ _ _ r (h.saved r hr)

theorem kept_arrive {s : Store} {i : Nat} {kind : Kind} (h : Kept s)
    (hi : s.callers i = .outside) :
    Kept (({ s with turns := s.turns ++ [false] } : Store).put i (.waits kind s.turns.length)) := by
  have still {j : Nat} {p : Phase} (hj : Function.update s.callers i
      (.waits kind s.turns.length) j = p) (hp : p.going = true) : s.callers j = p := by
    rw [Function.update_apply] at hj
    split at hj
    · rw [← hj] at hp
      cases hp
    · exact hj
  constructor
  · rw [turn_put, going_put]
    show Orderly (s.turns ++ [false])
      (Function.update (fun j => (s.callers j).turn) i (some s.turns.length))
      (Function.update (fun j => (s.callers j).going) i false)
    have hg : Function.update (fun j => (s.callers j).going) i false =
        fun j => (s.callers j).going :=
      Function.update_eq_self_iff.mpr (by rw [hi]; rfl)
    rw [hg]
    exact h.queue.arrive (by rw [hi]; rfl)
  · intro j kind' turn owned joined writes hj
    obtain ⟨h1, h2, h3, h4⟩ := h.work j _ _ _ _ _ (still hj rfl)
    exact ⟨h1, h2, h3, h4⟩
  · intro hno
    apply h.idle
    intro j kind' turn owned joined writes hj
    apply hno j kind' turn owned joined writes
    show Function.update _ _ _ _ = _
    rw [Function.update_of_ne]
    · exact hj
    · rintro rfl
      rw [hi] at hj
      cases hj
  · intro j turn writes hj
    exact h.left j turn writes (still hj rfl)
  · exact h.saved

theorem Kept.quiet {s : Store} (h : Kept s) {i turn : Nat} (ht : (s.callers i).turn = some turn)
    (hc : Come s.turns turn) (j : Nat) (hj : j ≠ i) : (s.callers j).going = false := by
  by_contra hg
  refine hj ((h.queue.start ht hc).alone ?_ (Function.update_self ..))
  rw [Function.update_of_ne hj]
  simpa using hg

theorem Kept.unstarted {s : Store} (h : Kept s) {i turn : Nat} {kind : Kind}
    (hi : s.callers i = .waits kind turn) (hc : Come s.turns turn) :
    s.transactionDepth = 0 ∧ s.releaseWriteTurn = none := by
  apply h.idle
  intro j kind' turn' owned joined writes hj
  have hji : j ≠ i := by
    rintro rfl
    rw [hi] at hj
    cases hj
  have := h.quiet (by rw [hi]; rfl) hc j hji
  rw [hj] at this
  cases this

theorem begin_idle {s : Store} (h : s.transactionDepth = 0) (answer : Answer) :
    s.begin answer =
      if (s.db.execBegin answer).2 then
        ({ s with db := (s.db.execBegin answer).1, transactionDepth := 1 }, some true)
      else ({ s with db := (s.db.execBegin answer).1 }, none) := by
  unfold Store.begin
  rw [if_neg (by omega)]

theorem execBegin_committed (db : Connection) (answer : Answer) :
    (db.execBegin answer).1.committed = db.committed := by
  unfold Connection.execBegin
  split <;> rfl

/-- A caller whose turn has come starts, or finds `BEGIN` throw and, being a
body, gives the turn back in its `finally`. -/
theorem kept_resume {s t : Store} {i turn : Nat} {kind : Kind} {answer : Answer} (h : Kept s)
    (hi : s.callers i = .waits kind turn) (hc : Come s.turns turn)
    (hb : kind = .method → (s.db.execBegin answer).2 = true)
    (ht : step s (.resume i answer) = some t) : Kept t := by
  obtain ⟨hdepth, hrelease⟩ := h.unstarted hi hc
  have hturn : (s.callers i).turn = some turn := by rw [hi]; rfl
  have hquiet := h.quiet hturn hc
  have hsaved : ∀ r ∈ s.acknowledged, r ∈ (s.db.execBegin answer).1.committed := by
    rw [execBegin_committed]
    exact h.saved
  have hq {p : Phase} (hp : p.turn = some turn) (hg : p.going = true) :
      Orderly s.turns (Function.update (fun j => (s.callers j).turn) i p.turn)
        (Function.update (fun j => (s.callers j).going) i p.going) := by
    rw [hp, ← hturn, Function.update_eq_self, hg]
    exact h.queue.start hturn hc
  simp only [step, hi, if_pos hc] at ht
  cases hdone : (s.db.execBegin answer).2 with
  | true =>
    cases kind <;>
    · rw [begin_idle (by exact hdepth)] at ht
      simp only [hdone, if_true] at ht
      cases ht
      apply kept_put
      · exact hq rfl rfl
      · exact hquiet
      · intro kind' turn' owned joined writes hp
        cases hp
        exact ⟨rfl, rfl, by first | rfl | exact hrelease, by simp⟩
      · intro hno
        exact absurd rfl (hno _ _ _ _ _)
      · intro turn' writes hp
        cases hp
      · exact hsaved
  | false =>
    cases kind with
    | method =>
      rw [hb rfl] at hdone
      cases hdone
    | body =>
      rw [begin_idle hdepth] at ht
      simp only [hdone] at ht
      cases ht
      apply kept_put
      · exact hq rfl rfl
      · exact hquiet
      · intro kind' turn' owned joined writes hp
        cases hp
      · intro _
        exact ⟨hdepth, hrelease⟩
      · intro turn' writes hp
        cases hp
        simp
      · exact hsaved

theorem kept_join {s t : Store} {i : Nat} (h : Kept s) (ht : step s (.join i) = some t) :
    Kept t := by
  simp only [step] at ht
  split at ht
  · rename_i turn owned joined writes hi
    obtain ⟨h1, h2, h3, h4⟩ := h.work i _ _ _ _ _ hi
    have hjoin : s.begin .ok =
        ({ s with transactionDepth := s.transactionDepth + 1 }, some false) := by
      unfold Store.begin
      rw [if_pos (by omega)]
    rw [hjoin] at ht
    cases ht
    apply kept_put
    · exact h.same_turn (by rw [hi]; rfl) (by rw [hi]; rfl)
    · exact h.others (by rw [hi]; rfl)
    · intro kind' turn' owned' joined' writes' hp
      cases hp
      exact ⟨h1, congrArg (· + 1) h2, h3, h4⟩
    · intro hno
      exact absurd rfl (hno _ _ _ _ _)
    · intro turn' writes' hp
      cases hp
    · exact h.saved
  · cases ht

theorem kept_settle {s t : Store} {i : Nat} (h : Kept s) (ht : step s (.settle i) = some t) :
    Kept t := by
  simp only [step] at ht
  split at ht
  · rename_i kind turn owned joined writes hi
    obtain ⟨h1, h2, h3, h4⟩ := h.work i _ _ _ _ _ hi
    cases ht
    apply kept_put
    · exact h.same_turn (by rw [hi]; rfl) (by rw [hi]; rfl)
    · exact h.others (by rw [hi]; rfl)
    · intro kind' turn' owned' joined' writes' hp
      cases hp
      exact ⟨h1, congrArg (· - 1) h2, h3, h4⟩
    · intro hno
      exact absurd rfl (hno _ _ _ _ _)
    · intro turn' writes' hp
      cases hp
    · exact h.saved
  · cases ht

theorem Kept.gone {s : Store} (h : Kept s) {i turn : Nat} (ht : (s.callers i).turn = some turn)
    (hg : (s.callers i).going = true) :
    Orderly (s.turns.set turn true)
      (Function.update (fun j => (s.callers j).turn) i Phase.outside.turn)
      (Function.update (fun j => (s.callers j).going) i Phase.outside.going) :=
  h.queue.giveBack ht hg

/-- The transaction is over: committed, rolled back, or left open by a body whose
`ROLLBACK` threw. -/
theorem kept_finish {s : Store} {i turn joined : Nat} {kind : Kind} {owned : Bool}
    {writes : List Nat} (db : Connection) (written : List Nat) (h : Kept s)
    (hi : s.callers i = .working kind turn owned joined writes)
    (hdb : ∀ r ∈ s.db.committed, r ∈ db.committed) (hw : ∀ r ∈ written, r ∈ db.committed) :
    Kept (({ s with db := db, transactionDepth := 0 } : Store).endWriteTurn.committed
      i kind turn written) := by
  have hturn : (s.callers i).turn = some turn := by rw [hi]; rfl
  have hgoing : (s.callers i).going = true := by rw [hi]; rfl
  have hrelease := (h.work i _ _ _ _ _ hi).release
  cases kind with
  | method =>
    simp only [Store.endWriteTurn, Store.committed, hrelease, if_true]
    apply kept_put
    · exact h.gone hturn hgoing
    · exact h.others hgoing
    · intro kind' turn' owned' joined' writes' hp
      cases hp
    · intro _
      exact ⟨rfl, rfl⟩
    · intro turn' writes' hp
      cases hp
    · intro r hr
      rcases List.mem_append.mp hr with hr | hr
      · exact hdb r (h.saved r hr)
      · exact hw r hr
  | body =>
    rw [if_neg (by decide)] at hrelease
    simp only [Store.endWriteTurn, Store.committed, hrelease]
    apply kept_put
    · exact h.same_turn hturn.symm hgoing.symm
    · exact h.others hgoing
    · intro kind' turn' owned' joined' writes' hp
      cases hp
    · intro _
      exact ⟨rfl, rfl⟩
    · intro turn' writes' hp
      cases hp
      exact hw
    · intro r hr
      exact hdb r (h.saved r hr)

theorem execRollback_committed (db : Connection) (answer : Answer) :
    (db.execRollback answer).1.committed = db.committed := by
  unfold Connection.execRollback
  split <;> rfl

theorem execCommit_thrown {db : Connection} {answer : Answer}
    (h : (db.execCommit answer).2 = false) : (db.execCommit answer).1.committed = db.committed := by
  unfold Connection.execCommit at h ⊢
  split
  · simp_all
  · rfl
  · rfl

theorem execCommit_done {db : Connection} {answer : Answer}
    (h : (db.execCommit answer).2 = true) :
    ∃ written, db.uncommitted = some written ∧
      (db.execCommit answer).1.committed = db.committed ++ written := by
  unfold Connection.execCommit at h ⊢
  split at h
  · rename_i written hw
    exact ⟨written, hw, rfl⟩
  · cases h
  · cases h

theorem kept_rollback {s : Store} {i turn joined : Nat} {kind : Kind} {owned : Bool}
    {writes : List Nat} {db : Connection} {depth : Nat} {undo : Answer} (h : Kept s)
    (hi : s.callers i = .working kind turn owned joined writes) (hd : depth ≤ 1)
    (hdb : db.committed = s.db.committed)
    (hu : kind = .method → (db.execRollback undo).2 = true) :
    Kept ((({ s with db := db, transactionDepth := depth } : Store).rollback true undo).put i
      (kind.thrown turn)) := by
  have hzero : depth - 1 = 0 := by omega
  have hrelease := (h.work i _ _ _ _ _ hi).release
  have hend : ({ s with db := db, transactionDepth := depth } : Store).rollback true undo =
      ({ s with db := (db.execRollback undo).1, transactionDepth := 0 } : Store).endWriteTurn := by
    simp only [Store.rollback, if_true, hzero]
    split
    · rfl
    · rename_i hno
      cases kind with
      | method => exact absurd (hu rfl) hno
      | body =>
        rw [if_neg (by decide)] at hrelease
        simp only [Store.endWriteTurn, hrelease]
  have hnone (t : Store) : t.put i (kind.thrown turn) = t.committed i kind turn [] := by
    cases kind with
    | method => simp only [Store.committed, Kind.thrown, List.append_nil]
    | body => rfl
  rw [hend, hnone]
  apply kept_finish _ _ h hi
  · intro r hr
    rw [execRollback_committed, hdb]
    exact hr
  · simp

theorem kept_commit {s t : Store} {i : Nat} {answer undo : Answer} (h : Kept s)
    (hu : (s.callers i).isMethod = true → (s.db.execCommit answer).2 = false →
      ((s.db.execCommit answer).1.execRollback undo).2 = true)
    (ht : step s (.commit i answer undo) = some t) : Kept t := by
  simp only [step] at ht
  split at ht
  · rename_i kind turn owned writes hi
    obtain ⟨rfl, hdepth, -, hwrote⟩ := h.work i _ _ _ _ _ hi
    cases hdone : (s.db.execCommit answer).2 with
    | true =>
      obtain ⟨written, hopen, hc⟩ := execCommit_done hdone
      simp only [Store.commit, if_true, hdone] at ht
      obtain rfl := Option.some.inj ht
      have := kept_finish (s.db.execCommit answer).1 writes h hi
        (fun r hr => hc ▸ List.mem_append_left _ hr) (fun r hr => hc ▸ hwrote written hopen r hr)
      simpa only [hdepth, Nat.zero_add, Nat.sub_self] using this
    | false =>
      simp only [Store.commit, if_true, hdone] at ht
      obtain rfl := Option.some.inj ht
      refine kept_rollback h hi (by omega) (execCommit_thrown hdone) fun hk => hu ?_ hdone
      rw [hi, hk]
      rfl
  · cases ht

theorem kept_fail {s t : Store} {i : Nat} {undo : Answer} (h : Kept s)
    (hu : (s.callers i).isMethod = true → (s.db.execRollback undo).2 = true)
    (ht : step s (.fail i undo) = some t) : Kept t := by
  simp only [step] at ht
  split at ht
  · rename_i kind turn owned writes hi
    obtain ⟨rfl, hdepth, -, -⟩ := h.work i _ _ _ _ _ hi
    cases ht
    refine kept_rollback h hi (by omega) rfl fun hk => hu ?_
    rw [hi, hk]
    rfl
  · cases ht

theorem kept_leave {s t : Store} {i : Nat} (h : Kept s) (ht : step s (.leave i) = some t) :
    Kept t := by
  simp only [step] at ht
  split at ht
  · rename_i turn writes hi
    have hgoing : (s.callers i).going = true := by rw [hi]; rfl
    cases ht
    apply kept_put
    · exact h.gone (by rw [hi]; rfl) hgoing
    · exact h.others hgoing
    · intro kind turn' owned joined writes' hp
      cases hp
    · intro _
      apply h.idle
      intro j kind turn' owned joined writes' hj
      have hji : j = i := h.queue.alone (by rw [hj]; rfl) hgoing
      rw [hji, hi] at hj
      cases hj
    · intro turn' writes' hp
      cases hp
    · intro r hr
      rcases List.mem_append.mp hr with hr | hr
      · exact h.saved r hr
      · exact h.left i turn writes hi r hr
  · cases ht

/-- **A step that is in turn keeps the discipline.** -/
theorem kept_step (s : Store) (e : Event) (t : Store) (h : Kept s) (hok : InTurn s e)
    (ht : step s e = some t) : Kept t := by
  cases e with
  | statement i row answer =>
    simp only [step] at ht
    split at ht
    · rename_i hi
      cases ht
      exact kept_statement_outside h (hok hi)
    · rename_i hi
      cases ht
      exact kept_statement_working h hi
    · cases ht
  | arrive i kind =>
    simp only [step] at ht
    split at ht
    · rename_i hi
      cases ht
      exact kept_arrive h hi
    · cases ht
  | resume i answer =>
    cases hi : s.callers i with
    | waits kind turn =>
      by_cases hc : Come s.turns turn
      · refine kept_resume h hi hc (fun hk => hok ?_) ht
        rw [hi, hk]
        rfl
      · simp only [step, hi, if_neg hc] at ht
        cases ht
    | _ =>
      simp only [step, hi] at ht
      cases ht
  | join i => exact kept_join h ht
  | settle i => exact kept_settle h ht
  | commit i answer undo => exact kept_commit h hok ht
  | fail i undo => exact kept_fail h hok ht
  | leave i => exact kept_leave h ht

/-! ## Runs -/

/-- **No rollback undoes another caller's acknowledged write.** In every run whose
steps are in turn, one caller at a time owns the transaction, every turn that was
not given back is held by somebody, and what was answered with success is in the
database. -/
theorem writes_survive {events : List Event} {s : Store} (h : Throughout step InTurn {} events)
    (hs : run step {} events = some s) : Disciplined s :=
  (run_invariant kept_step kept_init h hs).disciplined

/-- A body and a method take turns, a statement before them and one between. -/
def takingTurns : List Event :=
  [.statement 0 1 .ok, .arrive 1 .body, .arrive 2 .method, .resume 1 .ok, .statement 1 2 .ok,
    .join 1, .statement 1 3 .ok, .settle 1, .fail 1 .ok, .statement 0 4 .ok, .leave 1,
    .resume 2 .ok, .statement 2 5 .ok, .commit 2 .ok .ok]

theorem writes_survive_taking_turns :
    (run step {} takingTurns).map (fun s => (s.db.rows, s.acknowledged)) =
        some ([1, 4, 5], [1, 4, 5]) ∧
      Disciplined ((run step {} takingTurns).getD {}) :=
  ⟨by decide, writes_survive (show Throughout step InTurn {} takingTurns by decide) rfl⟩

/-- A body opens a transaction; another caller's `setChannelMessageContent`, which
takes no turn, is answered with success; the body throws. -/
def writeUnderAnothersTransaction : List Event :=
  [.arrive 0 .body, .resume 0 .ok, .statement 1 7 .ok, .fail 0 .ok, .leave 0]

/-- The write was acknowledged and is gone. -/
theorem acknowledged_write_undone :
    (run step {} writeUnderAnothersTransaction).map (fun s => (s.acknowledged, s.db.rows)) =
        some ([7], []) ∧
      ¬ ∀ events s, run step {} events = some s → Disciplined s := by
  refine ⟨by decide, fun hall => ?_⟩
  have hsaved := (hall writeUnderAnothersTransaction _ rfl).saved 7 (by decide)
  exact absurd hsaved (by decide)

/-! ## A turn that is lost -/

/-- Nobody's turn has come, and none comes before this one. -/
structure Stuck (turn : Nat) (s : Store) : Prop where
  lost : turn < s.turns.length
  given : ∀ t : Nat, turn ≤ t → s.turns[t]? ≠ some true
  idle : ∀ j, (s.callers j).going = false
  behind : ∀ j t, (s.callers j).turn = some t → turn < t

theorem Stuck.resume {s : Store} {turn t : Nat} (h : Stuck turn s) {i : Nat} {kind : Kind}
    (hi : s.callers i = .waits kind t) : ¬Come s.turns t := by
  have hlt := h.behind i t (by rw [hi]; rfl)
  rintro (rfl | hcome)
  · omega
  · exact h.given (t - 1) (by omega) hcome

theorem stuck_step {turn : Nat} (s : Store) (e : Event) (t : Store) (h : Stuck turn s)
    (ht : step s e = some t) : Stuck turn t := by
  have hnone : ∀ {i phase}, s.callers i = phase → phase.going ≠ true := fun {i phase} hi => by
    rw [← hi, h.idle i]
    exact Bool.false_ne_true
  cases e with
  | statement i row answer =>
    simp only [step] at ht
    split at ht
    · obtain rfl := Option.some.inj ht
      exact ⟨h.lost, h.given, h.idle, h.behind⟩
    · rename_i hi
      exact absurd rfl (hnone hi)
    · cases ht
  | arrive i kind =>
    simp only [step] at ht
    split at ht
    · obtain rfl := Option.some.inj ht
      refine ⟨?_, fun t hle => ?_, fun j => ?_, fun j t hj => ?_⟩
      · show turn < (s.turns ++ [false]).length
        rw [List.length_append]
        exact Nat.lt_add_right _ h.lost
      · show (s.turns ++ [false])[t]? ≠ some true
        rw [List.getElem?_append]
        split
        · exact h.given t hle
        · rw [List.getElem?_singleton]
          split <;> simp
      · simp only [Store.put, Function.update_apply]
        split
        · rfl
        · exact h.idle j
      · simp only [Store.put, Function.update_apply] at hj
        split at hj
        · obtain rfl := Option.some.inj hj
          exact h.lost
        · exact h.behind j t hj
    · cases ht
  | resume i answer =>
    simp only [step] at ht
    split at ht
    · rename_i hi
      rw [if_neg (h.resume hi)] at ht
      cases ht
    · cases ht
  | join i =>
    simp only [step] at ht
    split at ht
    · rename_i hi
      exact absurd rfl (hnone hi)
    · cases ht
  | settle i =>
    simp only [step] at ht
    split at ht
    · rename_i hi
      exact absurd rfl (hnone hi)
    · cases ht
  | commit i answer undo =>
    simp only [step] at ht
    split at ht
    · rename_i hi
      exact absurd rfl (hnone hi)
    · cases ht
  | fail i undo =>
    simp only [step] at ht
    split at ht
    · rename_i hi
      exact absurd rfl (hnone hi)
    · cases ht
  | leave i =>
    simp only [step] at ht
    split at ht
    · rename_i hi
      exact absurd rfl (hnone hi)
    · cases ht

theorem stuck_of_begin {s t : Store} {i turn : Nat} {answer : Answer} (h : Kept s)
    (hi : s.callers i = .waits .method turn) (hb : (s.db.execBegin answer).2 = false)
    (ht : step s (.resume i answer) = some t) : Stuck turn t := by
  have hturn : (s.callers i).turn = some turn := by rw [hi]; rfl
  have hheld := h.queue.held i turn hturn
  by_cases hc : Come s.turns turn
  · simp only [step, hi, if_pos hc] at ht
    rw [begin_idle (by exact (h.unstarted hi hc).1)] at ht
    simp only [hb] at ht
    obtain rfl := Option.some.inj ht
    obtain ⟨first, hfirst, hbefore⟩ := (h.queue.start hturn hc).ahead i (Function.update_self ..)
    obtain rfl := Option.some.inj (hturn.symm.trans hfirst)
    refine ⟨(List.getElem?_eq_some_iff.mp hheld).1, fun t hle hgiven => ?_, fun j => ?_,
      fun j t hj => ?_⟩
    · rcases Nat.eq_or_lt_of_le hle with rfl | hlt
      · exact absurd (hheld.symm.trans hgiven) (by simp)
      · exact absurd (hheld.symm.trans (h.queue.earlier turn t hlt hgiven)) (by simp)
    · simp only [Store.put, Function.update_apply]
      split
      · rfl
      · rename_i hji
        exact h.quiet hturn hc j hji
    · simp only [Store.put, Function.update_apply] at hj
      split at hj
      · cases hj
      · rename_i hji
        rcases Nat.lt_trichotomy t turn with hlt | rfl | hlt
        · exact absurd ((hbefore t hlt).symm.trans (h.queue.held j t hj)) (by simp)
        · exact absurd (h.queue.unique j i t hj hturn) hji
        · exact hlt
  · simp only [step, hi, if_neg hc] at ht
    cases ht

/-- **A method whose `BEGIN` throws stops every later writer.** Whatever happens after it, no
turn comes again: nobody ever gets into a transaction. -/
theorem turn_lost_at_begin {before after : List Event} {s t u : Store} {i turn : Nat}
    {answer : Answer} (h : Throughout step InTurn {} before) (hs : run step {} before = some s)
    (hi : s.callers i = .waits .method turn) (hb : (s.db.execBegin answer).2 = false)
    (ht : step s (.resume i answer) = some t) (hu : run step t after = some u) :
    ∀ j, (u.callers j).going = false :=
  (run_keeps stuck_step (stuck_of_begin (run_invariant kept_step kept_init h hs) hi hb ht) hu).idle

/-- A method finds the database locked, and two callers come after it. -/
def lockedOut : List Event := [.arrive 1 .body, .statement 2 7 .ok, .arrive 0 .method]

theorem turn_lost_at_begin_lockedOut :
    (run step {} ([.arrive 0 .method, .resume 0 .fails] ++ lockedOut)).isSome = true ∧
      ((((run step {} ([.arrive 0 .method, .resume 0 .fails] ++ lockedOut)).getD {}).callers
        1).going = false) :=
  ⟨by decide, @turn_lost_at_begin [.arrive 0 .method] lockedOut _ _ _ 0 0 .fails (by decide) rfl rfl
    rfl rfl rfl 1⟩

end AgenticGit.Persistence.Sqlite
