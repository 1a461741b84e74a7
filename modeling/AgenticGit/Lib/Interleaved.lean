import Mathlib.Data.List.Basic
import Mathlib.Tactic.Common

/- Lists sorted apart and put together again.

   What is proved:
     1. `interleaved_filter` — what passes a test and what fails it are the list, each in its
        order.
     2. `merge_filter` — merging them by an order gives the list back, when only elements
        that fare alike could change places. -/
namespace AgenticGit.Interleave

universe u

variable {α : Type u}

/-- The third list is the first two put together, each in its own order. -/
inductive Interleaved : List α → List α → List α → Prop where
  | nil : Interleaved [] [] []
  | left (x : α) {xs ys zs : List α} (h : Interleaved xs ys zs) :
      Interleaved (x :: xs) ys (x :: zs)
  | right (y : α) {xs ys zs : List α} (h : Interleaved xs ys zs) :
      Interleaved xs (y :: ys) (y :: zs)

theorem interleaved_filter (p : α → Bool) (xs : List α) :
    Interleaved (xs.filter p) (xs.filter fun x => !p x) xs := by
  induction xs with
  | nil => exact .nil
  | cons x xs ih =>
    cases hp : p x with
    | true =>
      rw [List.filter_cons_of_pos hp, List.filter_cons_of_neg (by simp [hp])]
      exact .left x ih
    | false =>
      rw [List.filter_cons_of_neg (by simp [hp]), List.filter_cons_of_pos (by simp [hp])]
      exact .right x ih

theorem merge_filter {le : α → α → Bool} {p : α → Bool} {xs : List α}
    (h : xs.Pairwise fun x y => le x y = true ∧ (le y x = true → p x = p y)) :
    List.merge (xs.filter p) (xs.filter fun x => !p x) le = xs := by
  induction xs with
  | nil => simp
  | cons x xs ih =>
    obtain ⟨hx, hxs⟩ := List.pairwise_cons.mp h
    have ih := ih hxs
    cases hp : p x with
    | true =>
      rw [List.filter_cons_of_pos hp, List.filter_cons_of_neg (by simp [hp])]
      cases hheld : xs.filter fun x => !p x with
      | nil => rw [hheld] at ih; simpa using ih
      | cons y ys =>
        have hy : y ∈ xs.filter fun x => !p x := hheld ▸ List.mem_cons_self
        rw [List.cons_merge_cons, if_pos (hx y (List.mem_filter.mp hy).1).1, ← hheld, ih]
    | false =>
      rw [List.filter_cons_of_neg (by simp [hp]), List.filter_cons_of_pos (by simp [hp])]
      cases hkept : xs.filter p with
      | nil => rw [hkept] at ih; simpa using ih
      | cons y ys =>
        have hy : y ∈ xs.filter p := hkept ▸ List.mem_cons_self
        obtain ⟨hmem, hpy⟩ := List.mem_filter.mp hy
        have hle : ¬le y x = true := by
          intro hle
          rw [← (hx y hmem).2 hle, hp] at hpy
          cases hpy
        rw [List.cons_merge_cons, if_neg hle, ← hkept, ih]

end AgenticGit.Interleave
