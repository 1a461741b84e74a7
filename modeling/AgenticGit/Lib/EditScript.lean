import Mathlib.Data.List.Basic
import Mathlib.Tactic.Common

/- Edit scripts over lists, one atom per element: keep it, drop it, or put a
   new one in front of what is still to come. A script acts on exactly the
   lists whose length it accounts for (`act`, `act_isSome_iff`).

   What is proved:
     1. `act_compose` — the composition of two scripts acts as one after the
        other, and exists exactly when their lengths meet (`compose_total`).
     2. `transform_diamond` — two scripts over the same list can each be
        carried over the other so that both orders reach the same list. Ties
        between insertions go to the first argument; the diamond holds for any
        fixed choice.
     3. Scripts of the same effect (`SameEffect`) can replace each other inside
        a longer script, so a normal form that reorders insertions and
        deletions at one place changes nothing (`sameEffect_swap`).
     4. `keepsRun_of_leaves` — a script that drops nothing of a run and puts
        nothing into it keeps the run as it is. -/
namespace AgenticGit.EditScript

universe u

/-- One step of a script over a list. -/
inductive Atom (α : Type u) where
  | keep : Atom α
  | drop : Atom α
  | put : α → Atom α
  deriving DecidableEq, Repr

abbrev Script (α : Type u) := List (Atom α)

variable {α : Type u}

def baseLen : Script α → Nat
  | [] => 0
  | .keep :: as => baseLen as + 1
  | .drop :: as => baseLen as + 1
  | .put _ :: as => baseLen as

def targetLen : Script α → Nat
  | [] => 0
  | .keep :: as => targetLen as + 1
  | .drop :: as => targetLen as
  | .put _ :: as => targetLen as + 1

/-- The list a script turns `s` into, or `none` when the script does not
account for exactly the elements of `s`. -/
def act : Script α → List α → Option (List α)
  | [], [] => some []
  | [], _ :: _ => none
  | .put c :: as, s => (act as s).map (c :: ·)
  | .keep :: as, c :: s => (act as s).map (c :: ·)
  | .drop :: as, _ :: s => act as s
  | .keep :: _, [] => none
  | .drop :: _, [] => none

/-! ## What a script acts on -/

theorem act_isSome_iff (as : Script α) (s : List α) :
    (act as s).isSome ↔ baseLen as = s.length := by
  induction as generalizing s with
  | nil => cases s <;> simp [act, baseLen]
  | cons a as ih =>
    cases a with
    | put c => simp [act, baseLen, ih]
    | keep => cases s <;> simp [act, baseLen, ih]
    | drop => cases s <;> simp [act, baseLen, ih]

theorem act_total {as : Script α} {s : List α} (h : baseLen as = s.length) :
    ∃ t, act as s = some t :=
  Option.isSome_iff_exists.mp ((act_isSome_iff as s).mpr h)

theorem act_base {as : Script α} {s t : List α} (h : act as s = some t) :
    baseLen as = s.length :=
  (act_isSome_iff as s).mp (by rw [h]; rfl)

theorem act_length {as : Script α} {s t : List α} (h : act as s = some t) :
    t.length = targetLen as := by
  induction as generalizing s t with
  | nil => cases s <;> simp_all [act, targetLen]
  | cons a as ih =>
    cases a with
    | put c =>
      obtain ⟨t', ht, rfl⟩ := Option.map_eq_some_iff.mp h
      simp [targetLen, ih ht]
    | keep =>
      cases s with
      | nil => simp [act] at h
      | cons c s =>
        obtain ⟨t', ht, rfl⟩ := Option.map_eq_some_iff.mp h
        simp [targetLen, ih ht]
    | drop =>
      cases s with
      | nil => simp [act] at h
      | cons c s => exact ih h

@[simp] theorem baseLen_append (as bs : Script α) :
    baseLen (as ++ bs) = baseLen as + baseLen bs := by
  induction as with
  | nil => simp [baseLen]
  | cons a as ih => cases a <;> simp [baseLen, ih] <;> omega

@[simp] theorem targetLen_append (as bs : Script α) :
    targetLen (as ++ bs) = targetLen as + targetLen bs := by
  induction as with
  | nil => simp [targetLen]
  | cons a as ih => cases a <;> simp [targetLen, ih] <;> omega

theorem act_append (as bs : Script α) (s : List α) :
    act (as ++ bs) s =
      (act as (s.take (baseLen as))).bind fun x =>
        (act bs (s.drop (baseLen as))).map (x ++ ·) := by
  induction as generalizing s with
  | nil =>
    cases h : act bs s <;> simp [act, baseLen, h]
  | cons a as ih =>
    cases a with
    | put c =>
      simp only [List.cons_append, act, baseLen, ih]
      cases act as (s.take (baseLen as)) <;> cases act bs (s.drop (baseLen as)) <;> simp
    | keep =>
      cases s with
      | nil => simp [act]
      | cons c s =>
        simp only [List.cons_append, act, baseLen, List.take_succ_cons, List.drop_succ_cons, ih]
        cases act as (s.take (baseLen as)) <;> cases act bs (s.drop (baseLen as)) <;> simp
    | drop =>
      cases s with
      | nil => simp [act]
      | cons c s =>
        simp only [List.cons_append, act, baseLen, List.take_succ_cons, List.drop_succ_cons, ih]

theorem act_append_some {as bs : Script α} {s t x y : List α} (hs : act as s = some x)
    (ht : act bs t = some y) : act (as ++ bs) (s ++ t) = some (x ++ y) := by
  rw [act_append, act_base hs, List.take_left, List.drop_left, hs, Option.bind_some, ht,
    Option.map_some]

/-! ## Runs of one atom -/

/-- The script that keeps `n` elements. -/
def keeps (n : Nat) : Script α := List.replicate n .keep

/-- The script that drops `n` elements. -/
def drops (n : Nat) : Script α := List.replicate n .drop

/-- The script that puts `s` in. -/
def puts (s : List α) : Script α := s.map .put

theorem keeps_add (m n : Nat) : (keeps (m + n) : Script α) = keeps m ++ keeps n :=
  List.replicate_add m n _

theorem drops_add (m n : Nat) : (drops (m + n) : Script α) = drops m ++ drops n :=
  List.replicate_add m n _

theorem puts_append (s t : List α) : puts (s ++ t) = puts s ++ puts t :=
  List.map_append

@[simp] theorem keeps_zero : (keeps 0 : Script α) = [] := rfl
@[simp] theorem drops_zero : (drops 0 : Script α) = [] := rfl
@[simp] theorem puts_nil : (puts [] : Script α) = [] := rfl

@[simp] theorem keeps_succ (n : Nat) : (keeps (n + 1) : Script α) = .keep :: keeps n := rfl
@[simp] theorem drops_succ (n : Nat) : (drops (n + 1) : Script α) = .drop :: drops n := rfl
@[simp] theorem puts_cons (c : α) (s : List α) : puts (c :: s) = .put c :: puts s := rfl

@[simp] theorem baseLen_nil : baseLen ([] : Script α) = 0 := rfl
@[simp] theorem targetLen_nil : targetLen ([] : Script α) = 0 := rfl

@[simp] theorem baseLen_keeps (n : Nat) : baseLen (keeps n : Script α) = n := by
  induction n with
  | zero => rfl
  | succ n ih => simp [baseLen, ih]

@[simp] theorem targetLen_keeps (n : Nat) : targetLen (keeps n : Script α) = n := by
  induction n with
  | zero => rfl
  | succ n ih => simp [targetLen, ih]

@[simp] theorem baseLen_drops (n : Nat) : baseLen (drops n : Script α) = n := by
  induction n with
  | zero => rfl
  | succ n ih => simp [baseLen, ih]

@[simp] theorem targetLen_drops (n : Nat) : targetLen (drops n : Script α) = 0 := by
  induction n with
  | zero => rfl
  | succ n ih => simp [targetLen, ih]

@[simp] theorem baseLen_puts (s : List α) : baseLen (puts s) = 0 := by
  induction s with
  | nil => rfl
  | cons c s ih => simp [baseLen, ih]

@[simp] theorem targetLen_puts (s : List α) : targetLen (puts s) = s.length := by
  induction s with
  | nil => rfl
  | cons c s ih => simp [targetLen, ih]

theorem act_keeps (s : List α) : act (keeps s.length) s = some s := by
  induction s with
  | nil => rfl
  | cons c s ih => simp [act, ih]

theorem act_drops (s : List α) : act (drops s.length) s = some [] := by
  induction s with
  | nil => rfl
  | cons c s ih => simp [act, ih]

theorem act_puts (s : List α) : act (puts s) [] = some s := by
  induction s with
  | nil => rfl
  | cons c s ih => simp [act, ih]

/-! ## Runs a script keeps -/

/-- The script keeps the elements from `lo` up to `hi` in one run. -/
def KeepsRun (as : Script α) (lo hi : Nat) : Prop :=
  ∃ first last, as = first ++ (keeps (hi - lo) ++ last) ∧ baseLen first = lo

/-- The script, read from element `p` on, drops nothing from `lo` up to `hi` and puts
nothing in between them. -/
def Leaves (lo hi : Nat) : Script α → Nat → Prop
  | [], _ => True
  | .keep :: as, p => Leaves lo hi as (p + 1)
  | .drop :: as, p => (p < lo ∨ hi ≤ p) ∧ Leaves lo hi as (p + 1)
  | .put _ :: as, p => (p ≤ lo ∨ hi ≤ p) ∧ Leaves lo hi as p

variable {lo hi : Nat}

theorem leaves_append (as bs : Script α) (p : Nat) :
    Leaves lo hi (as ++ bs) p ↔ Leaves lo hi as p ∧ Leaves lo hi bs (p + baseLen as) := by
  induction as generalizing p with
  | nil => simp [Leaves]
  | cons a as ih =>
    have hnext : p + (baseLen as + 1) = p + 1 + baseLen as := by omega
    cases a with
    | keep => simp [Leaves, baseLen, ih, hnext]
    | drop => simp [Leaves, baseLen, ih, hnext, and_assoc]
    | put c => simp [Leaves, baseLen, ih, and_assoc]

theorem leaves_keeps (lo hi n p : Nat) : Leaves lo hi (keeps n : Script α) p := by
  induction n generalizing p with
  | zero => trivial
  | succ n ih => exact ih (p + 1)

theorem KeepsRun.cons {as : Script α} {lo hi n : Nat} (a : Atom α) (h : KeepsRun as lo hi)
    (ha : baseLen (a :: as) = n + baseLen as) : KeepsRun (a :: as) (n + lo) (n + hi) := by
  obtain ⟨first, last, rfl, rfl⟩ := h
  refine ⟨a :: first, last, ?_, ?_⟩
  · rw [Nat.add_sub_add_left]
    rfl
  · cases a <;> simp [baseLen] at ha ⊢ <;> omega

theorem keeps_of_leaves {as : Script α} {p : Nat} (h : Leaves lo hi as p) (hlo : lo < p)
    (hhi : hi ≤ p + baseLen as) : ∃ last, as = keeps (hi - p) ++ last := by
  induction as generalizing p with
  | nil => exact ⟨[], by simp [show hi - p = 0 by simp [baseLen] at hhi; omega]⟩
  | cons a as ih =>
    by_cases hp : hi ≤ p
    · exact ⟨a :: as, by simp [Nat.sub_eq_zero_of_le hp]⟩
    cases a with
    | keep =>
      obtain ⟨last, rfl⟩ := @ih (p + 1) h (by omega) (by simp [baseLen] at hhi ⊢; omega)
      refine ⟨last, ?_⟩
      rw [show hi - p = hi - (p + 1) + 1 by omega]
      rfl
    | drop =>
      have hdrop := h.1
      omega
    | put c =>
      have hput := h.1
      omega

/-- **A script that leaves a run alone keeps it.** -/
theorem keepsRun_of_leaves {as : Script α} {p : Nat} (h : Leaves lo hi as p) (hp : p ≤ lo)
    (hle : lo ≤ hi) (hhi : hi ≤ p + baseLen as) : KeepsRun as (lo - p) (hi - p) := by
  induction as generalizing p with
  | nil =>
    simp only [baseLen] at hhi
    exact ⟨[], [], by simp [show hi - p - (lo - p) = 0 by omega], by simp; omega⟩
  | cons a as ih =>
    cases a with
    | keep =>
      by_cases hlo : p = lo
      · subst hlo
        by_cases hpos : hi = p
        · subst hpos
          exact ⟨[], .keep :: as, by simp, by simp⟩
        · obtain ⟨last, rfl⟩ := keeps_of_leaves (p := p + 1) h (Nat.lt_succ_self p)
            (by simp [baseLen] at hhi ⊢; omega)
          refine ⟨[], last, ?_, by simp⟩
          rw [show hi - p - (p - p) = hi - (p + 1) + 1 by omega]
          rfl
      · have hrun := (@ih (p + 1) h (by omega) (by simp [baseLen] at hhi ⊢; omega)).cons .keep
          (n := 1) (by simp [baseLen]; omega)
        rwa [show 1 + (lo - (p + 1)) = lo - p by omega,
          show 1 + (hi - (p + 1)) = hi - p by omega] at hrun
    | drop =>
      obtain ⟨hout, h⟩ := h
      by_cases hlo : p = lo
      · have hempty : hi - p - (lo - p) = 0 := by omega
        exact ⟨[], .drop :: as, by simp [hempty], by simp; omega⟩
      · have hrun := (@ih (p + 1) h (by omega) (by simp [baseLen] at hhi ⊢; omega)).cons .drop
          (n := 1) (by simp [baseLen]; omega)
        rwa [show 1 + (lo - (p + 1)) = lo - p by omega,
          show 1 + (hi - (p + 1)) = hi - p by omega] at hrun
    | put c =>
      have hrun := (@ih p h.2 hp (by simpa [baseLen] using hhi)).cons (.put c)
        (n := 0) (by simp [baseLen])
      rwa [Nat.zero_add, Nat.zero_add] at hrun

/-- The script makes `t` of `s` around the elements from `lo` up to `hi`, which stay in one
run. -/
def KeepsIn (as : Script α) (s t : List α) (lo hi : Nat) : Prop :=
  ∃ first last front rest, as = first ++ (keeps (hi - lo) ++ last) ∧
    act first (s.take lo) = some front ∧ act last (s.drop hi) = some rest ∧
    t = front ++ ((s.take hi).drop lo ++ rest)

theorem KeepsRun.act {as : Script α} {s t : List α} (h : KeepsRun as lo hi) (hle : lo ≤ hi)
    (hhi : hi ≤ s.length) (hact : act as s = some t) : KeepsIn as s t lo hi := by
  obtain ⟨first, last, rfl, hbase⟩ := h
  rw [act_append, hbase] at hact
  obtain ⟨front, hfront, hact⟩ := Option.bind_eq_some_iff.mp hact
  obtain ⟨behind, hbehind, rfl⟩ := Option.map_eq_some_iff.mp hact
  have hrun : ((s.take hi).drop lo).length = hi - lo := by
    rw [List.length_drop, List.length_take]
    omega
  have hsplit : s.drop lo = (s.take hi).drop lo ++ s.drop hi := by
    rw [List.drop_take, ← Nat.add_sub_of_le hle, ← List.drop_drop, Nat.add_sub_cancel_left,
      List.take_append_drop]
  rw [hsplit, ← hrun, act_append, baseLen_keeps, List.take_left, List.drop_left, act_keeps,
    Option.bind_some] at hbehind
  obtain ⟨rest, hrest, rfl⟩ := Option.map_eq_some_iff.mp hbehind
  exact ⟨first, last, front, rest, rfl, hfront, hrest, rfl⟩

/-! ## Scripts of the same effect -/

/-- Two scripts that read as many elements and turn every list into the same
one. -/
structure SameEffect (as bs : Script α) : Prop where
  base : baseLen as = baseLen bs
  act : ∀ s, act as s = act bs s

namespace SameEffect

@[refl] theorem refl (as : Script α) : SameEffect as as := ⟨rfl, fun _ => rfl⟩

variable {as bs : Script α}

theorem of_eq (h : as = bs) : SameEffect as bs := h ▸ refl as

@[symm] theorem symm (h : SameEffect as bs) : SameEffect bs as :=
  ⟨h.base.symm, fun s => (h.act s).symm⟩

@[trans] theorem trans {as bs cs : Script α} (h₁ : SameEffect as bs) (h₂ : SameEffect bs cs) :
    SameEffect as cs :=
  ⟨h₁.base.trans h₂.base, fun s => (h₁.act s).trans (h₂.act s)⟩

theorem append {as as' bs bs' : Script α} (h₁ : SameEffect as as') (h₂ : SameEffect bs bs') :
    SameEffect (as ++ bs) (as' ++ bs') := by
  refine ⟨by simp [h₁.base, h₂.base], fun s => ?_⟩
  rw [act_append, act_append, h₁.base, h₁.act, h₂.act]

theorem targetLen_eq (h : SameEffect as bs) {s : List α} (hs : baseLen as = s.length) :
    targetLen as = targetLen bs := by
  obtain ⟨t, ht⟩ := act_total hs
  rw [← act_length ht, ← act_length (h.act s ▸ ht)]

end SameEffect

theorem sameEffect_swap (n : Nat) (s : List α) :
    SameEffect (drops n ++ puts s) (puts s ++ drops n) := by
  refine ⟨by simp, fun r => ?_⟩
  rw [act_append, act_append]
  simp only [baseLen_drops, baseLen_puts, List.take_zero, List.drop_zero, act_puts,
    Option.bind_some]
  by_cases hr : r.length = n
  · subst hr
    simp [act_drops, act_puts]
  · have h₂ : act (drops n) r = none := by
      rw [← Option.not_isSome_iff_eq_none, act_isSome_iff]
      simpa using Ne.symm hr
    rw [h₂]
    cases h₁ : act (drops n) (r.take n) with
    | none => simp
    | some x =>
      have hb := act_base h₁
      have h₃ : act (puts s) (r.drop n) = none := by
        rw [← Option.not_isSome_iff_eq_none, act_isSome_iff]
        simp only [baseLen_drops, List.length_take] at hb
        simp only [baseLen_puts, List.length_drop]
        omega
      simp [h₃]

/-! ## Acting on a list still to be made -/

theorem bind_put (c : α) (as : Script α) (x : Option (List α)) :
    x.bind (act (.put c :: as)) = (x.bind (act as)).map (c :: ·) := by
  cases x <;> rfl

theorem bind_keep (c : α) (as : Script α) (x : Option (List α)) :
    (x.map (c :: ·)).bind (act (.keep :: as)) = (x.bind (act as)).map (c :: ·) := by
  cases x <;> rfl

theorem bind_drop (c : α) (as : Script α) (x : Option (List α)) :
    (x.map (c :: ·)).bind (act (.drop :: as)) = x.bind (act as) := by
  cases x <;> rfl

/-! ## Composition -/

/-- The script that acts as the first and then the second. A drop of the first
removes what the second never sees; a put of the second adds what the first
never made. -/
def compose : Script α → Script α → Option (Script α)
  | .drop :: as, bs => (compose as bs).map (.drop :: ·)
  | as, .put c :: bs => (compose as bs).map (.put c :: ·)
  | .keep :: as, .keep :: bs => (compose as bs).map (.keep :: ·)
  | .keep :: as, .drop :: bs => (compose as bs).map (.drop :: ·)
  | .put c :: as, .keep :: bs => (compose as bs).map (.put c :: ·)
  | .put _ :: as, .drop :: bs => compose as bs
  | [], [] => some []
  | _, _ => none
termination_by as bs => as.length + bs.length

theorem compose_total {as bs : Script α} (h : targetLen as = baseLen bs) :
    ∃ cs, compose as bs = some cs := by
  fun_induction compose as bs with
  | case1 as bs ih =>
    obtain ⟨cs, hcs⟩ := ih (by simpa [targetLen] using h)
    exact ⟨_, by rw [hcs]; rfl⟩
  | case2 as c bs _ ih =>
    obtain ⟨cs, hcs⟩ := ih (by simpa [baseLen] using h)
    exact ⟨_, by rw [hcs]; rfl⟩
  | case3 as bs ih =>
    obtain ⟨cs, hcs⟩ := ih (by simpa [targetLen, baseLen] using h)
    exact ⟨_, by rw [hcs]; rfl⟩
  | case4 as bs ih =>
    obtain ⟨cs, hcs⟩ := ih (by simpa [targetLen, baseLen] using h)
    exact ⟨_, by rw [hcs]; rfl⟩
  | case5 c as bs ih =>
    obtain ⟨cs, hcs⟩ := ih (by simpa [targetLen, baseLen] using h)
    exact ⟨_, by rw [hcs]; rfl⟩
  | case6 c as bs ih => exact ih (by simpa [targetLen, baseLen] using h)
  | case7 => exact ⟨[], rfl⟩
  | case8 as bs _ _ _ _ _ _ _ =>
    rcases as with _ | ⟨a | a | a, as⟩ <;> rcases bs with _ | ⟨b | b | b, bs⟩ <;>
      simp_all [targetLen, baseLen]

theorem act_compose {as bs cs : Script α} (h : compose as bs = some cs) (s : List α) :
    act cs s = (act as s).bind (act bs) := by
  fun_induction compose as bs generalizing cs s with
  | case1 as bs ih =>
    obtain ⟨cs', hcs, rfl⟩ := Option.map_eq_some_iff.mp h
    cases s with
    | nil => rfl
    | cons c s => exact ih hcs s
  | case2 as c bs _ ih =>
    obtain ⟨cs', hcs, rfl⟩ := Option.map_eq_some_iff.mp h
    rw [act, ih hcs s, bind_put]
  | case3 as bs ih =>
    obtain ⟨cs', hcs, rfl⟩ := Option.map_eq_some_iff.mp h
    cases s with
    | nil => rfl
    | cons c s => rw [act, act, ih hcs s, bind_keep]
  | case4 as bs ih =>
    obtain ⟨cs', hcs, rfl⟩ := Option.map_eq_some_iff.mp h
    cases s with
    | nil => rfl
    | cons c s => rw [act, act, ih hcs s, bind_drop]
  | case5 c as bs ih =>
    obtain ⟨cs', hcs, rfl⟩ := Option.map_eq_some_iff.mp h
    rw [act, act, ih hcs s, bind_keep]
  | case6 c as bs ih => rw [ih h s, act, bind_drop]
  | case7 =>
    obtain rfl : [] = cs := by simpa using h
    cases s <;> rfl
  | case8 => simp at h

theorem compose_base {as bs cs : Script α} (h : compose as bs = some cs) :
    baseLen cs = baseLen as ∧ targetLen cs = targetLen bs := by
  fun_induction compose as bs generalizing cs with
  | case7 => simp_all
  | case8 => simp at h
  | case6 c as bs ih => simpa [baseLen, targetLen] using ih h
  | case1 as bs ih | case2 as c bs _ ih | case3 as bs ih | case4 as bs ih | case5 c as bs ih =>
    obtain ⟨cs', hcs, rfl⟩ := Option.map_eq_some_iff.mp h
    simp [baseLen, targetLen, ih hcs]

/-! ## Transformation -/

/-- Each of two scripts over one list carried over the other. Where both put
elements in at one place, those of the first argument come first. -/
def transform : Script α → Script α → Option (Script α × Script α)
  | .put c :: as, bs => (transform as bs).map fun p => (.put c :: p.1, .keep :: p.2)
  | as, .put c :: bs => (transform as bs).map fun p => (.keep :: p.1, .put c :: p.2)
  | .keep :: as, .keep :: bs => (transform as bs).map fun p => (.keep :: p.1, .keep :: p.2)
  | .drop :: as, .drop :: bs => transform as bs
  | .drop :: as, .keep :: bs => (transform as bs).map fun p => (.drop :: p.1, p.2)
  | .keep :: as, .drop :: bs => (transform as bs).map fun p => (p.1, .drop :: p.2)
  | [], [] => some ([], [])
  | _, _ => none
termination_by as bs => as.length + bs.length

theorem transform_total {as bs : Script α} (h : baseLen as = baseLen bs) :
    ∃ p, transform as bs = some p := by
  fun_induction transform as bs with
  | case1 c as bs ih | case2 as c bs _ ih | case3 as bs ih | case5 as bs ih | case6 as bs ih =>
    obtain ⟨p, hp⟩ := ih (by simpa [baseLen] using h)
    exact ⟨_, by rw [hp]; rfl⟩
  | case4 as bs ih => exact ih (by simpa [baseLen] using h)
  | case7 => exact ⟨_, rfl⟩
  | case8 as bs _ _ _ _ _ _ _ =>
    rcases as with _ | ⟨a | a | a, as⟩ <;> rcases bs with _ | ⟨b | b | b, bs⟩ <;>
      simp_all [baseLen]

theorem transform_lengths {as bs : Script α} {p : Script α × Script α}
    (h : transform as bs = some p) :
    baseLen p.1 = targetLen bs ∧ baseLen p.2 = targetLen as ∧
      targetLen p.1 = targetLen p.2 := by
  fun_induction transform as bs generalizing p with
  | case7 =>
    obtain rfl : ([], []) = p := by simpa using h
    simp
  | case8 => simp at h
  | case4 as bs ih => simpa [baseLen, targetLen] using ih h
  | case1 c as bs ih | case2 as c bs _ ih | case3 as bs ih | case5 as bs ih | case6 as bs ih =>
    obtain ⟨q, hq, rfl⟩ := Option.map_eq_some_iff.mp h
    obtain ⟨h₁, h₂, h₃⟩ := ih hq
    simp [baseLen, targetLen, h₁, h₂, h₃]

/-- **The diamond.** Both orders of two scripts over one list reach the same
list. -/
theorem transform_diamond {as bs : Script α} {p : Script α × Script α}
    (h : transform as bs = some p) (s : List α) :
    (act as s).bind (act p.2) = (act bs s).bind (act p.1) := by
  fun_induction transform as bs generalizing p s with
  | case1 c as bs ih =>
    obtain ⟨q, hq, rfl⟩ := Option.map_eq_some_iff.mp h
    rw [act, bind_keep, bind_put, ih hq s]
  | case2 as c bs _ ih =>
    obtain ⟨q, hq, rfl⟩ := Option.map_eq_some_iff.mp h
    rw [bind_put, act, bind_keep, ih hq s]
  | case3 as bs ih =>
    obtain ⟨q, hq, rfl⟩ := Option.map_eq_some_iff.mp h
    cases s with
    | nil => rfl
    | cons c s => rw [act, act, bind_keep, bind_keep, ih hq s]
  | case4 as bs ih =>
    cases s with
    | nil => rfl
    | cons c s => exact ih h s
  | case5 as bs ih =>
    obtain ⟨q, hq, rfl⟩ := Option.map_eq_some_iff.mp h
    cases s with
    | nil => rfl
    | cons c s => rw [act, act, bind_drop, ih hq s]
  | case6 as bs ih =>
    obtain ⟨q, hq, rfl⟩ := Option.map_eq_some_iff.mp h
    cases s with
    | nil => rfl
    | cons c s => rw [act, act, bind_drop, ih hq s]
  | case7 =>
    obtain rfl : ([], []) = p := by simpa using h
    rfl
  | case8 => simp at h

/-! ## Transformation and composition, a run of atoms at a time -/

def prefixed (xs ys : Script α) (p : Script α × Script α) : Script α × Script α :=
  (xs ++ p.1, ys ++ p.2)

theorem prefixed_nil : (prefixed [] [] : Script α × Script α → _) = id := rfl

theorem transform_puts_left (s : List α) (as bs : Script α) :
    transform (puts s ++ as) bs =
      (transform as bs).map (prefixed (puts s) (keeps s.length)) := by
  induction s with
  | nil => simp [prefixed_nil]
  | cons c s ih =>
    rw [puts_cons, List.cons_append, transform, ih]
    cases transform as bs <;> simp [prefixed]

theorem transform_puts_right {as : Script α} (has : ∀ c as', as ≠ .put c :: as')
    (s : List α) (bs : Script α) :
    transform as (puts s ++ bs) =
      (transform as bs).map (prefixed (keeps s.length) (puts s)) := by
  induction s with
  | nil => simp [prefixed_nil]
  | cons c s ih =>
    rw [puts_cons, List.cons_append, transform.eq_2 _ _ _ has, ih]
    cases transform as bs <;> simp [prefixed]

theorem transform_keeps (n : Nat) (as bs : Script α) :
    transform (keeps n ++ as) (keeps n ++ bs) =
      (transform as bs).map (prefixed (keeps n) (keeps n)) := by
  induction n with
  | zero => simp [prefixed_nil]
  | succ n ih =>
    simp only [keeps_succ, List.cons_append, transform, ih]
    cases transform as bs <;> simp [prefixed]

theorem transform_drops (n : Nat) (as bs : Script α) :
    transform (drops n ++ as) (drops n ++ bs) = transform as bs := by
  induction n with
  | zero => rfl
  | succ n ih => simp only [drops_succ, List.cons_append, transform, ih]

theorem transform_drops_keeps (n : Nat) (as bs : Script α) :
    transform (drops n ++ as) (keeps n ++ bs) =
      (transform as bs).map (prefixed (drops n) []) := by
  induction n with
  | zero => simp [prefixed_nil]
  | succ n ih =>
    simp only [drops_succ, keeps_succ, List.cons_append, transform, ih]
    cases transform as bs <;> simp [prefixed]

theorem transform_keeps_drops (n : Nat) (as bs : Script α) :
    transform (keeps n ++ as) (drops n ++ bs) =
      (transform as bs).map (prefixed [] (drops n)) := by
  induction n with
  | zero => simp [prefixed_nil]
  | succ n ih =>
    simp only [drops_succ, keeps_succ, List.cons_append, transform, ih]
    cases transform as bs <;> simp [prefixed]

theorem compose_drops_left (n : Nat) (as bs : Script α) :
    compose (drops n ++ as) bs = (compose as bs).map (drops n ++ ·) := by
  induction n with
  | zero => simp
  | succ n ih =>
    simp only [drops_succ, List.cons_append, compose, ih]
    cases compose as bs <;> simp

theorem compose_puts_right {as : Script α} (has : ∀ as', as ≠ .drop :: as')
    (s : List α) (bs : Script α) :
    compose as (puts s ++ bs) = (compose as bs).map (puts s ++ ·) := by
  induction s with
  | nil => simp
  | cons c s ih =>
    rw [puts_cons, List.cons_append, compose.eq_2 _ _ _ has, ih]
    cases compose as bs <;> simp

theorem compose_keeps (n : Nat) (as bs : Script α) :
    compose (keeps n ++ as) (keeps n ++ bs) = (compose as bs).map (keeps n ++ ·) := by
  induction n with
  | zero => simp
  | succ n ih =>
    simp only [keeps_succ, List.cons_append, compose, ih]
    cases compose as bs <;> simp

theorem compose_keeps_drops (n : Nat) (as bs : Script α) :
    compose (keeps n ++ as) (drops n ++ bs) = (compose as bs).map (drops n ++ ·) := by
  induction n with
  | zero => simp
  | succ n ih =>
    simp only [keeps_succ, drops_succ, List.cons_append, compose, ih]
    cases compose as bs <;> simp

theorem compose_puts_keeps (s : List α) (as bs : Script α) :
    compose (puts s ++ as) (keeps s.length ++ bs) = (compose as bs).map (puts s ++ ·) := by
  induction s with
  | nil => simp
  | cons c s ih =>
    simp only [puts_cons, List.length_cons, keeps_succ, List.cons_append, compose, ih]
    cases compose as bs <;> simp

theorem compose_puts_drops (s : List α) (as bs : Script α) :
    compose (puts s ++ as) (drops s.length ++ bs) = compose as bs := by
  induction s with
  | nil => rfl
  | cons c s ih =>
    simp only [puts_cons, List.length_cons, drops_succ, List.cons_append, compose, ih]

end AgenticGit.EditScript
