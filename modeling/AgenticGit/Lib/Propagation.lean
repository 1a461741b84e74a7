import Mathlib.Data.List.Basic
import Mathlib.Data.List.Perm.Basic
import Mathlib.Tactic.Common

/- Taking out of a list everything that depends, directly or in turn, on what is lost:
   one element at a time, each of them lost from then on.

   What is proved, for any relation between what is lost and what waits:
     1. `propagate_perm` — nothing is dropped and nothing is taken twice.
     2. `mem_taken_iff` — taken is exactly what a chain leads to from something lost.
     3. `propagate_clear` — nothing that stays depends on anything lost or taken. -/
namespace AgenticGit.Propagation

universe u v

variable {α : Type u} {β : Type v} [DecidableEq α] (reaches : β → α → Bool) (gone : α → β)

/-- What stays, and what is taken in its order. Each round takes one element, so as many
rounds as there are elements are enough. -/
def propagate : Nat → List α → List β → List α × List α
  | 0, waiting, _ => (waiting, [])
  | rounds + 1, waiting, lost =>
    match waiting.find? fun x => lost.any fun b => reaches b x with
    | none => (waiting, [])
    | some x =>
      let rest := propagate rounds (waiting.erase x) (lost ++ [gone x])
      (rest.1, x :: rest.2)

/-- A chain among what waits, from something lost. -/
inductive Downstream (waiting : List α) (lost : List β) : α → Prop
  | first {b : β} {x : α} : b ∈ lost → x ∈ waiting → reaches b x = true →
      Downstream waiting lost x
  | next {x y : α} : Downstream waiting lost x → y ∈ waiting → reaches (gone x) y = true →
      Downstream waiting lost y

variable {reaches gone}

omit [DecidableEq α] in
theorem Downstream.of_lost {waiting waiting' : List α} {lost lost' : List β} {x : α}
    (h : Downstream reaches gone waiting' lost' x) (hwaiting : waiting' ⊆ waiting)
    (hlost : ∀ b ∈ lost', b ∈ lost ∨ ∃ y, Downstream reaches gone waiting lost y ∧ b = gone y) :
    Downstream reaches gone waiting lost x := by
  induction h with
  | first hb hx hreaches =>
    rcases hlost _ hb with hb | ⟨y, hy, rfl⟩
    · exact .first hb (hwaiting hx) hreaches
    · exact .next hy (hwaiting hx) hreaches
  | next _ hy hreaches ih => exact .next ih (hwaiting hy) hreaches

omit [DecidableEq α] in
theorem find_some {waiting : List α} {lost : List β} {x : α}
    (h : (waiting.find? fun x => lost.any fun b => reaches b x) = some x) :
    x ∈ waiting ∧ ∃ b ∈ lost, reaches b x = true := by
  have hany := List.find?_some h
  exact ⟨List.mem_of_find?_eq_some h, List.any_eq_true.mp hany⟩

/-- **Nothing is dropped, and nothing is taken twice.** -/
theorem propagate_perm (rounds : Nat) (waiting : List α) (lost : List β) :
    ((propagate reaches gone rounds waiting lost).1 ++
      (propagate reaches gone rounds waiting lost).2).Perm waiting := by
  induction rounds generalizing waiting lost with
  | zero =>
    rw [propagate, List.append_nil]
  | succ rounds ih =>
    rw [propagate]
    split
    · rw [List.append_nil]
    · rename_i x hfound
      have hx : x ∈ waiting := (find_some hfound).1
      have hrest := ih (waiting.erase x) (lost ++ [gone x])
      exact List.perm_middle.trans ((hrest.cons x).trans (List.perm_cons_erase hx).symm)

theorem propagate_downstream (rounds : Nat) {waiting : List α} {lost : List β} {x : α}
    (h : x ∈ (propagate reaches gone rounds waiting lost).2) :
    Downstream reaches gone waiting lost x := by
  induction rounds generalizing waiting lost with
  | zero => cases h
  | succ rounds ih =>
    rw [propagate] at h
    split at h
    · cases h
    · rename_i y hfound
      obtain ⟨hy, b, hb, hreaches⟩ := find_some hfound
      have hfirst : Downstream reaches gone waiting lost y := .first hb hy hreaches
      rcases List.mem_cons.mp h with rfl | h
      · exact hfirst
      · refine (ih h).of_lost List.erase_subset fun b hb => ?_
        rcases List.mem_append.mp hb with hb | hb
        · exact .inl hb
        · exact .inr ⟨y, hfirst, List.mem_singleton.mp hb⟩

/-- **Nothing that stays depends on anything lost or taken.** -/
theorem propagate_clear {rounds : Nat} {waiting : List α} {lost : List β}
    (hrounds : waiting.length ≤ rounds) {x : α}
    (hx : x ∈ (propagate reaches gone rounds waiting lost).1) {b : β}
    (hb : b ∈ lost ++ (propagate reaches gone rounds waiting lost).2.map gone) :
    reaches b x = false := by
  induction rounds generalizing waiting lost with
  | zero =>
    rw [List.length_eq_zero_iff.mp (Nat.le_zero.mp hrounds)] at hx
    cases hx
  | succ rounds ih =>
    rw [propagate] at hx hb
    split at hx
    · rename_i hnone
      simp only [hnone, List.map_nil, List.append_nil] at hb
      have hany := List.find?_eq_none.mp hnone x hx
      exact eq_false_of_ne_true fun hreaches => hany (List.any_eq_true.mpr ⟨b, hb, hreaches⟩)
    · rename_i y hfound
      simp only [hfound, List.map_cons] at hb
      have hy : y ∈ waiting := (find_some hfound).1
      have hlength : (waiting.erase y).length ≤ rounds := by
        rw [List.length_erase_of_mem hy]
        omega
      refine ih hlength hx ?_
      rw [List.append_assoc, List.singleton_append]
      exact hb

/-- **Taken is exactly what a chain leads to from something lost.** -/
theorem mem_taken_iff {rounds : Nat} {waiting : List α} {lost : List β}
    (hrounds : waiting.length ≤ rounds) {x : α} :
    x ∈ (propagate reaches gone rounds waiting lost).2 ↔
      Downstream reaches gone waiting lost x := by
  refine ⟨propagate_downstream rounds, fun h => ?_⟩
  have htaken : ∀ {y : α} {b : β}, y ∈ waiting →
      b ∈ lost ++ (propagate reaches gone rounds waiting lost).2.map gone →
      reaches b y = true → y ∈ (propagate reaches gone rounds waiting lost).2 := by
    intro y b hy hb hreaches
    have hin := (@propagate_perm _ _ _ reaches gone rounds waiting lost).mem_iff.mpr hy
    refine (List.mem_append.mp hin).resolve_left fun hstays => ?_
    rw [propagate_clear hrounds hstays hb] at hreaches
    cases hreaches
  induction h with
  | first hb hx hreaches => exact htaken hx (List.mem_append_left _ hb) hreaches
  | next _ hy hreaches ih =>
    exact htaken hy (List.mem_append_right _ (List.mem_map_of_mem ih)) hreaches

end AgenticGit.Propagation
