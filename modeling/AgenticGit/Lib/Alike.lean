import Mathlib.Data.List.Basic
import Mathlib.Data.List.Forall2
import Mathlib.Tactic.Common

/- Two runs of code that can fail, side by side.

   `Alike R x y` says that the two runs fail in the same way, or both succeed with
   results that `R` relates. The rules follow the constructs of a `do` block, so
   that what two runs agree on is shown by following the code once. -/
namespace AgenticGit

universe u

variable {ε α β γ δ : Type u}

/-- The runs fail alike, or succeed with related results. -/
def Alike (R : α → β → Prop) : Except ε α → Except ε β → Prop
  | .error e, .error e' => e = e'
  | .ok a, .ok b => R a b
  | _, _ => False

namespace Alike

variable {R : α → β → Prop} {S : γ → δ → Prop}

theorem ok {a : α} {b : β} (h : R a b) : Alike R (.ok a : Except ε α) (.ok b) := h

theorem refl (x : Except ε α) : Alike (fun a b => a = b) x x := by
  cases x with
  | error e => exact rfl
  | ok a => exact rfl

variable {x : Except ε α} {f : α → Except ε γ} {g : α → Except ε δ}

theorem bind {y : Except ε β} {g : β → Except ε δ} (hx : Alike R x y)
    (hf : ∀ a b, R a b → Alike S (f a) (g b)) : Alike S (x >>= f) (y >>= g) := by
  cases x with
  | error e =>
    cases y with
    | error e' => exact hx
    | ok b => exact hx.elim
  | ok a =>
    cases y with
    | error e' => exact hx.elim
    | ok b => exact hf a b hx

theorem step (hf : ∀ a, Alike S (f a) (g a)) : Alike S (x >>= f) (x >>= g) :=
  bind (refl x) fun a _ hab => hab ▸ hf a

theorem ite {c : Prop} [Decidable c] {x x' : Except ε α} {y y' : Except ε β}
    (ht : c → Alike R x y) (he : ¬c → Alike R x' y') :
    Alike R (if c then x else x') (if c then y else y') := by
  split
  · rename_i hc
    exact ht hc
  · rename_i hc
    exact he hc

theorem mapM {xs : List α} (h : ∀ a ∈ xs, Alike S (f a) (g a)) :
    Alike (List.Forall₂ S) (xs.mapM f) (xs.mapM g) := by
  induction xs with
  | nil => exact List.Forall₂.nil
  | cons a xs ih =>
    rw [List.mapM_cons, List.mapM_cons]
    apply bind (h a List.mem_cons_self)
    intro c d hcd
    apply bind (ih fun b hb => h b (List.mem_cons_of_mem _ hb))
    intro cs ds hall
    exact List.Forall₂.cons hcd hall

theorem mapError {ε' : Type u} {y : Except ε β} (f : ε → ε') (h : Alike R x y) :
    Alike R (x.mapError f) (y.mapError f) := by
  cases x with
  | error e =>
    cases y with
    | error e' => exact congrArg f h
    | ok b => exact h.elim
  | ok a =>
    cases y with
    | error e' => exact h.elim
    | ok b => exact h

end Alike

end AgenticGit
