import Mathlib.Data.List.Basic
import Mathlib.Logic.Function.Basic
import Mathlib.Tactic.Common

/- Tokens that are handed from place to place. `place` says which token each place holds,
   under a key; `noted` lists tokens that were seen somewhere once, `gone` those that were
   retired. Tokens are numbered as they are made.

   `Tracked` is the invariant: no token is in two places, or in a place and gone, and what
   was noted is somewhere under its key or gone under it. What is proved:
     1. `move`, `retire`, `make`, `note` — each operation keeps it.
     2. `Tracked.owned` — **a token that was noted has exactly one place or is gone.** -/
namespace AgenticGit.Tokens

universe u v

variable {ι : Type u} {κ : Type v} [DecidableEq ι]

structure Tracked (place : ι → Option (κ × Nat)) (noted gone : List (κ × Nat)) (next : Nat) :
    Prop where
  below : ∀ p key token, place p = some (key, token) → token < next
  goneBelow : ∀ key token, (key, token) ∈ gone → token < next
  unique : ∀ p q key other token, place p = some (key, token) → place q = some (other, token) →
    p = q
  apart : ∀ p key other token, place p = some (key, token) → (other, token) ∉ gone
  once : ∀ key other token, (key, token) ∈ gone → (other, token) ∈ gone → key = other
  kept : ∀ key token, (key, token) ∈ noted →
    (∃ p, place p = some (key, token)) ∨ (key, token) ∈ gone

namespace Tracked

variable {place : ι → Option (κ × Nat)} {noted gone : List (κ × Nat)} {next : Nat}

omit [DecidableEq ι] in
theorem empty : Tracked (fun _ : ι => none) ([] : List (κ × Nat)) [] 0 := by
  constructor <;> simp

variable {key : κ} {token : Nat}

omit [DecidableEq ι] in
/-- **A token that was noted has exactly one place or is gone.** -/
theorem owned (h : Tracked place noted gone next) (hnoted : (key, token) ∈ noted) :
    (∃! p, place p = some (key, token)) ∨ (key, token) ∈ gone := by
  rcases h.kept key token hnoted with ⟨p, hp⟩ | hgone
  · exact .inl ⟨p, hp, fun q hq => h.unique q p key key token hq hp⟩
  · exact .inr hgone

omit [DecidableEq ι] in
theorem retired_key (h : Tracked place noted gone next) {key other : κ}
    (hgone : (key, token) ∈ gone) (hnoted : (other, token) ∈ noted) : other = key := by
  rcases h.kept other token hnoted with ⟨p, hp⟩ | hother
  · exact absurd hgone (h.apart p other key token hp)
  · exact h.once other key token hother hgone

theorem move (h : Tracked place noted gone next) {p q : ι} (hq : place q = none) :
    Tracked (Function.update (Function.update place p none) q (place p)) noted gone next := by
  have hback : ∀ r entry, Function.update (Function.update place p none) q (place p) r =
      some entry → place (if r = q then p else r) = some entry ∧ (r = q ∨ r ≠ p) := by
    intro r entry hr
    by_cases hrq : r = q
    · rw [if_pos hrq]
      rw [hrq, Function.update_self] at hr
      exact ⟨hr, .inl hrq⟩
    · rw [if_neg hrq]
      rw [Function.update_of_ne hrq] at hr
      by_cases hrp : r = p
      · rw [hrp, Function.update_self] at hr
        cases hr
      · rw [Function.update_of_ne hrp] at hr
        exact ⟨hr, .inr hrp⟩
  constructor
  · intro r key token hr
    exact h.below _ key token (hback r _ hr).1
  · exact h.goneBelow
  · intro r s key other token hr hs
    obtain ⟨hr, hrp⟩ := hback r _ hr
    obtain ⟨hs, hsp⟩ := hback s _ hs
    have hsame := h.unique _ _ key other token hr hs
    split at hsame <;> split at hsame
    · rename_i hrq hsq
      rw [hrq, hsq]
    · rename_i hsq
      exact absurd hsame.symm (hsp.resolve_left hsq)
    · rename_i hrq _
      exact absurd hsame (hrp.resolve_left hrq)
    · exact hsame
  · intro r key other token hr
    exact h.apart _ key other token (hback r _ hr).1
  · exact h.once
  · intro key token hnoted
    refine (h.kept key token hnoted).imp_left ?_
    rintro ⟨r, hr⟩
    by_cases hrp : r = p
    · exact ⟨q, by rw [Function.update_self, ← hrp, hr]⟩
    · have hrq : r ≠ q := by
        rintro rfl
        rw [hq] at hr
        cases hr
      exact ⟨r, by rw [Function.update_of_ne hrq, Function.update_of_ne hrp, hr]⟩

theorem retire (h : Tracked place noted gone next) {p : ι} (hp : place p = some (key, token)) :
    Tracked (Function.update place p none) noted ((key, token) :: gone) next := by
  have hback : ∀ r entry, Function.update place p none r = some entry →
      r ≠ p ∧ place r = some entry := by
    intro r entry hr
    by_cases hrp : r = p
    · rw [hrp, Function.update_self] at hr
      cases hr
    · rw [Function.update_of_ne hrp] at hr
      exact ⟨hrp, hr⟩
  constructor
  · intro r other token' hr
    exact h.below r other token' (hback r _ hr).2
  · intro other token' hother
    rcases List.mem_cons.mp hother with heq | hother
    · obtain ⟨rfl, rfl⟩ := Prod.mk.inj heq
      exact h.below p _ _ hp
    · exact h.goneBelow other token' hother
  · intro r s k l token' hr hs
    exact h.unique r s k l token' (hback r _ hr).2 (hback s _ hs).2
  · intro r k l token' hr hother
    obtain ⟨hrp, hr⟩ := hback r _ hr
    rcases List.mem_cons.mp hother with heq | hother
    · obtain ⟨rfl, rfl⟩ := Prod.mk.inj heq
      exact hrp (h.unique r p k l token' hr hp)
    · exact h.apart r k l token' hr hother
  · intro k l token' hk hl
    rcases List.mem_cons.mp hk with heq | holdk <;> rcases List.mem_cons.mp hl with heq' | holdl
    · exact (Prod.mk.inj heq).1.trans (Prod.mk.inj heq').1.symm
    · obtain ⟨rfl, rfl⟩ := Prod.mk.inj heq
      exact absurd holdl (h.apart p k l token' hp)
    · obtain ⟨rfl, rfl⟩ := Prod.mk.inj heq'
      exact absurd holdk (h.apart p l k token' hp)
    · exact h.once k l token' holdk holdl
  · intro k token' hnoted
    rcases h.kept k token' hnoted with ⟨r, hr⟩ | hgone
    · by_cases hrp : r = p
      · rw [hrp, hp] at hr
        exact .inr (Option.some.inj hr ▸ List.mem_cons_self)
      · exact .inl ⟨r, by rw [Function.update_of_ne hrp, hr]⟩
    · exact .inr (List.mem_cons_of_mem _ hgone)

theorem make (h : Tracked place noted gone next) {p : ι} (hp : place p = none) (key : κ) :
    Tracked (Function.update place p (some (key, next))) noted gone (next + 1) := by
  have hback : ∀ r k token, Function.update place p (some (key, next)) r = some (k, token) →
      (r = p ∧ token = next) ∨ (place r = some (k, token) ∧ token < next) := by
    intro r k token hr
    by_cases hrp : r = p
    · rw [hrp, Function.update_self] at hr
      exact .inl ⟨hrp, (Prod.mk.inj (Option.some.inj hr)).2.symm⟩
    · rw [Function.update_of_ne hrp] at hr
      exact .inr ⟨hr, h.below r k token hr⟩
  constructor
  · intro r k token hr
    rcases hback r k token hr with ⟨-, rfl⟩ | ⟨-, hlt⟩ <;> omega
  · intro k token hk
    exact Nat.lt_succ_of_lt (h.goneBelow k token hk)
  · intro r s k l token hr hs
    rcases hback r k token hr with ⟨hr, htoken⟩ | ⟨hr, hlt⟩ <;>
      rcases hback s l token hs with ⟨hs, htoken'⟩ | ⟨hs, hlt'⟩
    · rw [hr, hs]
    · omega
    · omega
    · exact h.unique r s k l token hr hs
  · intro r k l token hr hl
    rcases hback r k token hr with ⟨-, rfl⟩ | ⟨hr, -⟩
    · exact absurd (h.goneBelow l token hl) (Nat.lt_irrefl _)
    · exact h.apart r k l token hr hl
  · exact h.once
  · intro k token hnoted
    refine (h.kept k token hnoted).imp_left ?_
    rintro ⟨r, hr⟩
    have hrp : r ≠ p := by
      rintro rfl
      rw [hp] at hr
      cases hr
    exact ⟨r, by rw [Function.update_of_ne hrp, hr]⟩

omit [DecidableEq ι] in
theorem note (h : Tracked place noted gone next) {p : ι} (hp : place p = some (key, token)) :
    Tracked place ((key, token) :: noted) gone next where
  below := h.below
  goneBelow := h.goneBelow
  unique := h.unique
  apart := h.apart
  once := h.once
  kept k token' hnoted := by
    rcases List.mem_cons.mp hnoted with heq | hnoted
    · exact .inl ⟨p, heq ▸ hp⟩
    · exact h.kept k token' hnoted

end Tracked

end AgenticGit.Tokens
