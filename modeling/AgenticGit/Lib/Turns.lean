import Mathlib.Data.List.Basic
import Mathlib.Logic.Function.Basic
import Mathlib.Tactic.Common

/- A queue of turns. Whoever arrives takes the next turn and waits for the one
   before it to be given back; `turns` says of each turn taken so far whether it
   has been, `holds` which turn somebody holds, and `going` who is no longer
   waiting for it.

   `Orderly` is the invariant; `Owned` is the part of it that says who holds what, and does
   for flags that come up in any order. What is proved:
     1. `Orderly.arrive`, `Orderly.start`, `Orderly.giveBack` — taking a turn,
        starting when it has come and giving it back keep it.
     2. `Orderly.alone` — at most one holder is going at a time.
     3. the field `given` — a turn that was not given back has a holder. -/
namespace AgenticGit.Turns

universe u

variable {ι : Type u} [DecidableEq ι]

/-- Each flag that is down has one holder. -/
structure Owned (flags : List Bool) (holds : ι → Option Nat) : Prop where
  held : ∀ i t, holds i = some t → flags[t]? = some false
  unique : ∀ i j t, holds i = some t → holds j = some t → i = j
  given : ∀ t : Nat, flags[t]? = some false → ∃ i, holds i = some t

namespace Owned

variable {flags : List Bool} {holds : ι → Option Nat}

omit [DecidableEq ι] in
theorem empty : Owned [] (fun _ : ι => none) where
  held := by simp
  unique := by simp
  given := by simp

theorem push (h : Owned flags holds) {i : ι} (hi : holds i = none) :
    Owned (flags ++ [false]) (Function.update holds i (some flags.length)) := by
  have below {j : ι} {t : Nat} (hj : holds j = some t) : t < flags.length :=
    (List.getElem?_eq_some_iff.mp (h.held j t hj)).1
  constructor
  · intro j t hj
    rw [Function.update_apply] at hj
    split at hj
    · obtain rfl := Option.some.inj hj
      simp
    · rw [List.getElem?_append_left (below hj)]
      exact h.held j t hj
  · intro j k t hj hk
    rw [Function.update_apply] at hj hk
    split at hj <;> split at hk
    · rename_i hji hki
      rw [hji, hki]
    · obtain rfl := Option.some.inj hj
      exact absurd (below hk) (Nat.lt_irrefl _)
    · obtain rfl := Option.some.inj hk
      exact absurd (below hj) (Nat.lt_irrefl _)
    · exact h.unique j k t hj hk
  · intro t ht
    rcases Nat.lt_or_ge t flags.length with hlt | hge
    · rw [List.getElem?_append_left hlt] at ht
      obtain ⟨j, hj⟩ := h.given t ht
      refine ⟨j, ?_⟩
      rw [Function.update_of_ne]
      · exact hj
      · rintro rfl
        exact absurd (hi.symm.trans hj) (by simp)
    · have hlen := (List.getElem?_eq_some_iff.mp ht).1
      simp only [List.length_append, List.length_singleton] at hlen
      obtain rfl : t = flags.length := by omega
      exact ⟨i, Function.update_self ..⟩

theorem release (h : Owned flags holds) {i : ι} {t : Nat} (hi : holds i = some t) :
    Owned (flags.set t true) (Function.update holds i none) := by
  have hlt := (List.getElem?_eq_some_iff.mp (h.held i t hi)).1
  have still {j : ι} {s : Nat} (hj : Function.update holds i none j = some s) :
      holds j = some s ∧ s ≠ t := by
    rw [Function.update_apply] at hj
    split at hj
    · cases hj
    · rename_i hji
      refine ⟨hj, ?_⟩
      rintro rfl
      exact hji (h.unique j i s hj hi)
  constructor
  · intro j s hj
    obtain ⟨hj, hs⟩ := still hj
    rw [List.getElem?_set_ne hs.symm]
    exact h.held j s hj
  · intro j k s hj hk
    exact h.unique j k s (still hj).1 (still hk).1
  · intro s hs
    have hst : s ≠ t := by
      rintro rfl
      rw [List.getElem?_set_self hlt] at hs
      cases hs
    rw [List.getElem?_set_ne hst.symm] at hs
    obtain ⟨j, hj⟩ := h.given s hs
    refine ⟨j, ?_⟩
    rw [Function.update_of_ne]
    · exact hj
    · rintro rfl
      exact hst (Option.some.inj (hj.symm.trans hi))

end Owned

structure Orderly (turns : List Bool) (holds : ι → Option Nat) (going : ι → Bool) : Prop where
  held : ∀ i t, holds i = some t → turns[t]? = some false
  unique : ∀ i j t, holds i = some t → holds j = some t → i = j
  given : ∀ t : Nat, turns[t]? = some false → ∃ i, holds i = some t
  earlier : ∀ s t : Nat, s < t → turns[t]? = some true → turns[s]? = some true
  ahead : ∀ i, going i = true → ∃ t, holds i = some t ∧ ∀ s < t, turns[s]? = some true

/-- A turn has come once the one before it has been given back. -/
def Come (turns : List Bool) (t : Nat) : Prop := t = 0 ∨ turns[t - 1]? = some true

instance (turns : List Bool) (t : Nat) : Decidable (Come turns t) :=
  inferInstanceAs (Decidable (t = 0 ∨ turns[t - 1]? = some true))

namespace Orderly

variable {turns : List Bool} {holds : ι → Option Nat} {going : ι → Bool}

omit [DecidableEq ι] in
theorem empty : Orderly [] (fun _ : ι => none) (fun _ => false) where
  held := by simp
  unique := by simp
  given := by simp
  earlier := by simp
  ahead := by simp

omit [DecidableEq ι] in
/-- **At most one is going at a time.** -/
theorem alone (h : Orderly turns holds going) {i j : ι} (hi : going i = true)
    (hj : going j = true) : i = j := by
  obtain ⟨t, ht, ha⟩ := h.ahead i hi
  obtain ⟨s, hs, hb⟩ := h.ahead j hj
  rcases Nat.lt_trichotomy t s with hlt | rfl | hlt
  · exact absurd ((hb t hlt).symm.trans (h.held i t ht)) (by simp)
  · exact h.unique i j t ht hs
  · exact absurd ((ha s hlt).symm.trans (h.held j s hs)) (by simp)

omit [DecidableEq ι] in
theorem owned (h : Orderly turns holds going) : Owned turns holds := ⟨h.held, h.unique, h.given⟩

theorem arrive (h : Orderly turns holds going) {i : ι} (hi : holds i = none) :
    Orderly (turns ++ [false]) (Function.update holds i (some turns.length)) going := by
  obtain ⟨hheld, hunique, hgiven⟩ := h.owned.push hi
  have old {t : Nat} {b : Bool} (ht : turns[t]? = some b) : (turns ++ [false])[t]? = some b := by
    rw [List.getElem?_append_left (List.getElem?_eq_some_iff.mp ht).1, ht]
  refine ⟨hheld, hunique, hgiven, ?_, ?_⟩
  · intro s t hst ht
    rcases Nat.lt_or_ge t turns.length with hlt | hge
    · rw [List.getElem?_append_left hlt] at ht
      exact old (h.earlier s t hst ht)
    · have hlen := (List.getElem?_eq_some_iff.mp ht).1
      simp only [List.length_append, List.length_singleton] at hlen
      obtain rfl : t = turns.length := by omega
      simp at ht
  · intro j hj
    obtain ⟨t, ht, ha⟩ := h.ahead j hj
    refine ⟨t, ?_, fun s hs => old (ha s hs)⟩
    rw [Function.update_of_ne]
    · exact ht
    · rintro rfl
      exact absurd (hi.symm.trans ht) (by simp)

theorem start (h : Orderly turns holds going) {i : ι} {t : Nat} (hi : holds i = some t)
    (hc : Come turns t) : Orderly turns holds (Function.update going i true) where
  held := h.held
  unique := h.unique
  given := h.given
  earlier := h.earlier
  ahead j hj := by
    rw [Function.update_apply] at hj
    split at hj
    · rename_i hji
      refine ⟨t, hji ▸ hi, fun s hs => ?_⟩
      rcases hc with rfl | hc
      · omega
      · rcases Nat.eq_or_lt_of_le (show s ≤ t - 1 by omega) with rfl | hlt
        · exact hc
        · exact h.earlier s (t - 1) hlt hc
    · exact h.ahead j hj

theorem giveBack (h : Orderly turns holds going) {i : ι} {t : Nat} (hi : holds i = some t)
    (hg : going i = true) :
    Orderly (turns.set t true) (Function.update holds i none) (Function.update going i false) := by
  obtain ⟨hheld, hunique, hgiven⟩ := h.owned.release hi
  have hlt := (List.getElem?_eq_some_iff.mp (h.held i t hi)).1
  have others {s : Nat} (hs : s ≠ t) : (turns.set t true)[s]? = turns[s]? :=
    List.getElem?_set_ne hs.symm
  have released {s : Nat} (hs : turns[s]? = some true) :
      (turns.set t true)[s]? = some true := by
    by_cases hst : s = t
    · rw [hst, List.getElem?_set_self hlt]
    · rw [others hst, hs]
  have before : ∀ s < t, turns[s]? = some true := by
    obtain ⟨t', ht', ha⟩ := h.ahead i hg
    obtain rfl := Option.some.inj (hi.symm.trans ht')
    exact ha
  refine ⟨hheld, hunique, hgiven, ?_, ?_⟩
  · intro r s hrs hs
    apply released
    by_cases hst : s = t
    · exact before r (hst ▸ hrs)
    · exact h.earlier r s hrs (by rwa [others hst] at hs)
  · intro j hj
    rw [Function.update_apply] at hj
    split at hj
    · cases hj
    · rename_i hji
      exact absurd (h.alone hj hg) hji

end Orderly

end AgenticGit.Turns
