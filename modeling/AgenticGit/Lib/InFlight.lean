import Mathlib.Data.List.Basic
import Mathlib.Tactic.Common

/- One operation in flight. A server orders operations in a log; a client that
   has at most one operation unacknowledged follows the log through an ordered
   queue of messages, each either a log entry someone else made or the
   acknowledgement of its own.

   Operations, states and the function that carries one operation over another
   are parameters (`OpSystem`); the one law asked of them is the diamond.

   What is proved about `Delivers`, the relation between a client that still has
   a queue to read and the server it will have caught up with:
     1. `Delivers.start` — work begun on top of the state the client has now
        reaches the server's state in the form the server itself rebases it to.
     2. `Delivers.snoc_op`, `Delivers.snoc_ack` — what the server appends to its
        log it may append to the queue.
     3. `Delivers.none_out` — a client with nothing in flight expects nothing. -/
namespace AgenticGit.InFlight

universe u v w

/-- Operations that act on states, and how one is carried over another made at
the same time. The first argument of `carry` is the one being rebased. -/
structure OpSystem (σ : Type u) (ω : Type v) (ε : Type w) where
  acts : ω → σ → σ → Prop
  carry : ω → ω → Except ε (ω × ω)
  diamond : ∀ {x y s t u}, acts x s t → acts y s u →
    ∃ x' y' v, carry x y = .ok (x', y') ∧ acts x' u v ∧ acts y' t v

variable {σ : Type u} {ω : Type v} {ε : Type w}

/-- `x` carried over the log entries `qs`, oldest first. -/
def OpSystem.rebase (O : OpSystem σ ω ε) : ω → List ω → Except ε ω
  | x, [] => .ok x
  | x, q :: qs =>
    match O.carry x q with
    | .ok (x', _) => rebase O x' qs
    | .error e => .error e

/-- What the server sends to one client. -/
inductive Message (ω : Type v) where
  | ack : Message ω
  | op : ω → Message ω
  deriving DecidableEq, Repr

variable {O : OpSystem σ ω ε}

@[simp] theorem OpSystem.rebase_nil (x : ω) : O.rebase x [] = .ok x := rfl

theorem OpSystem.rebase_cons {x x' q q' : ω} (h : O.carry x q = .ok (x', q')) (qs : List ω) :
    O.rebase x (q :: qs) = O.rebase x' qs := by
  simp only [rebase, h]

theorem OpSystem.rebase_snoc {x y y' q q' : ω} {qs : List ω} (h : O.rebase x qs = .ok y)
    (hq : O.carry y q = .ok (y', q')) : O.rebase x (qs ++ [q]) = .ok y' := by
  induction qs generalizing x with
  | nil =>
    obtain rfl := Except.ok.inj h
    exact rebase_cons hq []
  | cons r qs ih =>
    rw [List.cons_append]
    simp only [rebase] at h ⊢
    split at h
    · exact ih h
    · cases h

/-- A client at `s` with `out` in flight, once it has read `msgs`, has read the
log entries `entries`, is at `t` and has `out'` in flight. -/
inductive Delivers (O : OpSystem σ ω ε) :
    σ → Option ω → List (Message ω) → List ω → σ → Option ω → Prop
  | nil (s : σ) (out : Option ω) : Delivers O s out [] [] s out
  | ack {s s' t : σ} {x : ω} {msgs entries out'} (hx : O.acts x s s')
      (rest : Delivers O s' none msgs entries t out') :
      Delivers O s (some x) (.ack :: msgs) (x :: entries) t out'
  | op {s s' t : σ} {q : ω} {msgs entries out'} (hq : O.acts q s s')
      (rest : Delivers O s' none msgs entries t out') :
      Delivers O s none (.op q :: msgs) (q :: entries) t out'
  | opOver {s s' t : σ} {x x' q q' : ω} {msgs entries out'} (hq : O.acts q s s')
      (hc : O.carry x q = .ok (x', q')) (rest : Delivers O s' (some x') msgs entries t out') :
      Delivers O s (some x) (.op q :: msgs) (q :: entries) t out'

namespace Delivers

variable {s t : σ} {out out' : Option ω} {msgs : List (Message ω)} {entries : List ω}

theorem length_eq (h : Delivers O s out msgs entries t out') : entries.length = msgs.length := by
  induction h with
  | nil => rfl
  | ack _ _ ih | op _ _ ih | opOver _ _ _ ih => simp [ih]

theorem nil_eq (h : Delivers O s out [] [] t out') : t = s ∧ out' = out := by
  cases h with
  | nil => exact ⟨rfl, rfl⟩

theorem head_ack {e : ω} (h : Delivers O s out (.ack :: msgs) (e :: entries) t out') :
    out = some e ∧ ∃ s', O.acts e s s' ∧ Delivers O s' none msgs entries t out' := by
  cases h with
  | ack hx rest => exact ⟨rfl, _, hx, rest⟩

theorem head_op {q e : ω} (h : Delivers O s out (.op q :: msgs) (e :: entries) t out') :
    ∃ s', O.acts q s s' ∧
      ((out = none ∧ Delivers O s' none msgs entries t out') ∨
        ∃ x x' q', out = some x ∧ O.carry x q = .ok (x', q') ∧
          Delivers O s' (some x') msgs entries t out') := by
  cases h with
  | op hq rest => exact ⟨_, hq, .inl ⟨rfl, rest⟩⟩
  | opOver hq hc rest => exact ⟨_, hq, .inr ⟨_, _, _, rfl, hc, rest⟩⟩

theorem none_out {out' : Option ω} (h : Delivers O s none msgs entries t out') : out' = none := by
  generalize ho : (none : Option ω) = out at h
  induction h with
  | nil => exact ho ▸ rfl
  | ack => cases ho
  | op _ _ ih => exact ih rfl
  | opOver => cases ho

theorem acts_out {s s' t : σ} {x x' : ω} (h : Delivers O s (some x) msgs entries t (some x'))
    (hx : O.acts x s s') : ∃ t', O.acts x' t t' := by
  generalize ho : some x = out at h
  generalize ho' : some x' = out' at h
  induction h generalizing x s' with
  | nil s out =>
    obtain rfl := Option.some.inj (ho.trans ho'.symm)
    exact ⟨s', hx⟩
  | ack _ rest => cases ho'; exact absurd rest.none_out (Option.some_ne_none _)
  | op => cases ho
  | opOver hq hc rest ih =>
    obtain rfl := Option.some.inj ho
    obtain ⟨y, q', v, hc', hy, -⟩ := O.diamond hx hq
    obtain ⟨rfl, rfl⟩ := Prod.mk.inj (Except.ok.inj (hc.symm.trans hc'))
    exact ih hy rfl ho'

theorem start {s s' t : σ} {x : ω} {out' : Option ω} (h : Delivers O s none msgs entries t out')
    (hx : O.acts x s s') :
    ∃ x', Delivers O s (some x) msgs entries t (some x') ∧ O.rebase x entries = .ok x' := by
  generalize ho : (none : Option ω) = out at h
  induction h generalizing x s' with
  | nil s out => exact ⟨x, .nil s _, rfl⟩
  | ack => cases ho
  | op hq rest ih =>
    obtain ⟨y, q', v, hc, hy, -⟩ := O.diamond hx hq
    obtain ⟨x', hd, hr⟩ := ih hy rfl
    exact ⟨x', .opOver hq hc hd, (OpSystem.rebase_cons hc _).trans hr⟩
  | opOver => cases ho

theorem snoc_ack {s t t' : σ} {out : Option ω} {x' : ω}
    (h : Delivers O s out msgs entries t (some x')) (hx : O.acts x' t t') :
    Delivers O s out (msgs ++ [.ack]) (entries ++ [x']) t' none := by
  generalize ho : some x' = out' at h
  induction h with
  | nil s out => subst ho; exact .ack hx (.nil t' none)
  | ack hy _ ih => exact .ack hy (ih hx ho)
  | op hq _ ih => exact .op hq (ih hx ho)
  | opOver hq hc _ ih => exact .opOver hq hc (ih hx ho)

theorem snoc_op {s t t' : σ} {out : Option ω} {q : ω} (h : Delivers O s out msgs entries t none)
    (hq : O.acts q t t') : Delivers O s out (msgs ++ [.op q]) (entries ++ [q]) t' none := by
  generalize ho : (none : Option ω) = out' at h
  induction h with
  | nil s out => subst ho; exact .op hq (.nil t' none)
  | ack hy _ ih => exact .ack hy (ih hq ho)
  | op hr _ ih => exact .op hr (ih hq ho)
  | opOver hr hc _ ih => exact .opOver hr hc (ih hq ho)

theorem snoc_opOver {s t t' : σ} {out : Option ω} {q q' x x' : ω}
    (h : Delivers O s out msgs entries t (some x)) (hq : O.acts q t t')
    (hc : O.carry x q = .ok (x', q')) :
    Delivers O s out (msgs ++ [.op q]) (entries ++ [q]) t' (some x') := by
  generalize ho : some x = out' at h
  induction h with
  | nil s out => subst ho; exact .opOver hq hc (.nil t' _)
  | ack hy _ ih => exact .ack hy (ih hq ho)
  | op hr _ ih => exact .op hr (ih hq ho)
  | opOver hr hd _ ih => exact .opOver hr hd (ih hq ho)

end Delivers

end AgenticGit.InFlight
