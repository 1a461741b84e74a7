import Mathlib.Logic.Function.Basic
import Mathlib.Logic.Function.Iterate
import Mathlib.Logic.Relation
import Mathlib.Tactic.Common

/- Disjoint sets as a forest of parent links, with path compression.

   A key without a parent of its own is a root; two keys are in one set when
   they have one root. `links` bounds the number of links above any key, so it
   is fuel enough for the walk to the root.

   What is proved: a `find` answers the root and moves none (`find_fst`,
   `root_find`); a `union` gives the keys of the left set the root of the right
   one and moves no other (`root_union`); after any list of unions two keys
   have one root exactly when a chain of the pairs joins them
   (`root_unions_iff`). -/
namespace AgenticGit

/-- A forest of parent links no longer than `links`. -/
structure DisjointSets (κ : Type) where
  parent : κ → κ
  links : Nat
  settled : ∀ key, parent (parent^[links] key) = parent^[links] key

namespace DisjointSets

variable {κ : Type}

def singletons : DisjointSets κ := ⟨id, 0, fun _ => rfl⟩

def root (sets : DisjointSets κ) (key : κ) : κ := sets.parent^[sets.links] key

@[simp] theorem parent_root (sets : DisjointSets κ) (key : κ) :
    sets.parent (sets.root key) = sets.root key := sets.settled key

theorem iterate_root (sets : DisjointSets κ) (key : κ) (n : Nat) :
    sets.parent^[n] (sets.root key) = sets.root key :=
  Function.iterate_fixed (sets.parent_root key) n

theorem root_parent (sets : DisjointSets κ) (key : κ) :
    sets.root (sets.parent key) = sets.root key := by
  rw [root, ← Function.iterate_succ_apply, Function.iterate_succ_apply', sets.settled]
  rfl

theorem root_root (sets : DisjointSets κ) (key : κ) : sets.root (sets.root key) = sets.root key :=
  sets.iterate_root key _

variable {parent : κ → κ} {left right : κ} {sets : DisjointSets κ} {r : κ → κ → Prop}

theorem iterate_shortcut (sets : DisjointSets κ)
    (hshort : ∀ key, parent key = sets.parent key ∨ parent key = sets.root key) (key : κ) (n : Nat) :
    parent^[n] key = sets.parent^[n] key ∨ parent^[n] key = sets.root key := by
  have hroot : parent (sets.root key) = sets.root key := by
    rcases hshort (sets.root key) with h | h
    · rw [h, parent_root]
    · rw [h, root_root]
  induction n with
  | zero => exact .inl rfl
  | succ n ih =>
    rw [Function.iterate_succ_apply', Function.iterate_succ_apply']
    rcases ih with ih | ih
    · rw [ih]
      have hsame : sets.root (sets.parent^[n] key) = sets.root key := by
        clear ih
        induction n with
        | zero => rfl
        | succ n ih => rw [Function.iterate_succ_apply', root_parent, ih]
      rcases hshort (sets.parent^[n] key) with h | h
      · exact .inl h
      · exact .inr (h.trans hsame)
    · exact .inr (by rw [ih, hroot])

theorem shortcut_root (sets : DisjointSets κ)
    (hshort : ∀ key, parent key = sets.parent key ∨ parent key = sets.root key) (key : κ) :
    parent^[sets.links] key = sets.root key :=
  (sets.iterate_shortcut hshort key sets.links).elim id id

theorem shortcut_settled (sets : DisjointSets κ)
    (hshort : ∀ key, parent key = sets.parent key ∨ parent key = sets.root key) (key : κ) :
    parent (parent^[sets.links] key) = parent^[sets.links] key := by
  rw [sets.shortcut_root hshort]
  rcases hshort (sets.root key) with h | h
  · rw [h, parent_root]
  · rw [h, root_root]

/-- Two keys are in one set exactly when a chain of `r` joins them. -/
def Partitions (sets : DisjointSets κ) (r : κ → κ → Prop) : Prop :=
  ∀ a b, sets.root a = sets.root b ↔ Relation.EqvGen r a b

theorem partitions_singletons : (singletons : DisjointSets κ).Partitions fun _ _ => False := by
  intro a b
  refine ⟨fun h => by rw [show a = b from h]; exact .refl b, fun h => ?_⟩
  induction h with
  | rel _ _ h => cases h
  | refl _ => rfl
  | symm _ _ _ ih => exact ih.symm
  | trans _ _ _ _ _ ihab ihbc => exact ihab.trans ihbc

/-! ## Finding a root -/

variable [DecidableEq κ]

/-- The walk up the links, which leaves every key it went through linked to the root. -/
def climb (parent : κ → κ) : Nat → κ → κ × (κ → κ)
  | 0, key => (key, parent)
  | fuel + 1, key =>
    if parent key = key then (key, parent)
    else
      let found := climb parent fuel (parent key)
      (found.1, Function.update found.2 key found.1)

theorem climb_fst (parent : κ → κ) (fuel : Nat) (key : κ) :
    (climb parent fuel key).1 = parent^[fuel] key := by
  induction fuel generalizing key with
  | zero => rfl
  | succ fuel ih =>
    rw [climb]
    split
    · rename_i h
      exact (Function.iterate_fixed h _).symm
    · exact ih (parent key)

theorem climb_snd (parent : κ → κ) (fuel : Nat) (key other : κ) :
    (climb parent fuel key).2 other = parent other ∨
      ∃ n, other = parent^[n] key ∧ n ≤ fuel ∧
        (climb parent fuel key).2 other = parent^[fuel] key := by
  induction fuel generalizing key with
  | zero => exact .inl rfl
  | succ fuel ih =>
    rw [climb]
    split
    · exact .inl rfl
    · simp only [climb_fst]
      by_cases heq : other = key
      · refine .inr ⟨0, heq, Nat.zero_le _, ?_⟩
        rw [heq, Function.update_self, Function.iterate_succ_apply]
      · rw [Function.update_of_ne heq]
        rcases ih (parent key) with h | ⟨n, hother, hn, h⟩
        · exact .inl h
        · exact .inr ⟨n + 1, hother, Nat.succ_le_succ hn, h⟩

theorem climb_shortcut (sets : DisjointSets κ) (key other : κ) :
    (climb sets.parent sets.links key).2 other = sets.parent other ∨
      (climb sets.parent sets.links key).2 other = sets.root other := by
  rcases climb_snd sets.parent sets.links key other with h | ⟨n, hother, _, h⟩
  · exact .inl h
  · refine .inr (h.trans ?_)
    rw [hother, root, ← Function.iterate_add_apply, Nat.add_comm, Function.iterate_add_apply]
    exact (sets.iterate_root key n).symm

/-- The root of a key, and the links shortened on the way to it. -/
def find (sets : DisjointSets κ) (key : κ) : κ × DisjointSets κ :=
  ((climb sets.parent sets.links key).1,
    ⟨(climb sets.parent sets.links key).2, sets.links,
      sets.shortcut_settled (sets.climb_shortcut key)⟩)

@[simp] theorem find_fst (sets : DisjointSets κ) (key : κ) : (sets.find key).1 = sets.root key :=
  climb_fst _ _ _

@[simp] theorem root_find (sets : DisjointSets κ) (key other : κ) :
    (sets.find key).2.root other = sets.root other :=
  sets.shortcut_root (sets.climb_shortcut key) other

/-! ## Joining two sets -/

/-- Where a key stands once `left` was linked to `right`. -/
def moved (left right key : κ) : κ := if key = left then right else key

theorem moved_link (sets : DisjointSets κ) (hleft : sets.parent left = left)
    (hright : sets.parent right = right) (hne : left ≠ right) (n : Nat) (key : κ) :
    moved left right ((Function.update sets.parent left right)^[n] key) =
      moved left right (sets.parent^[n] key) := by
  induction n with
  | zero => rfl
  | succ n ih =>
    rw [Function.iterate_succ_apply', Function.iterate_succ_apply']
    generalize (Function.update sets.parent left right)^[n] key = x at ih
    generalize sets.parent^[n] key = y at ih
    have hup : moved left right (Function.update sets.parent left right left) = right := by
      rw [Function.update_self, moved, if_neg hne.symm]
    rw [moved, moved] at ih
    by_cases hx : x = left
    · rw [if_pos hx] at ih
      rw [hx, hup]
      by_cases hy : y = left
      · rw [hy, hleft, moved, if_pos rfl]
      · rw [if_neg hy] at ih
        rw [← ih, hright, moved, if_neg hne.symm]
    · rw [if_neg hx] at ih
      rw [Function.update_of_ne hx]
      by_cases hy : y = left
      · rw [if_pos hy] at ih
        rw [ih, hy, hright, hleft, moved, moved, if_neg hne.symm, if_pos rfl]
      · rw [if_neg hy] at ih
        rw [ih]

theorem link_iterate (sets : DisjointSets κ) (hleft : sets.parent left = left)
    (hright : sets.parent right = right) (hne : left ≠ right) (key : κ) :
    (Function.update sets.parent left right)^[sets.links + 1] key =
      moved left right (sets.root key) := by
  have hmoved := sets.moved_link hleft hright hne sets.links key
  rw [Function.iterate_succ_apply']
  generalize (Function.update sets.parent left right)^[sets.links] key = x at hmoved
  change moved left right x = moved left right (sets.root key) at hmoved
  rw [← hmoved]
  by_cases hx : x = left
  · rw [hx, Function.update_self, moved, if_pos rfl]
  · rw [Function.update_of_ne hx]
    rw [moved, if_neg hx] at hmoved ⊢
    by_cases hroot : sets.root key = left
    · rw [moved, if_pos hroot] at hmoved
      rw [hmoved, hright]
    · rw [moved, if_neg hroot] at hmoved
      rw [hmoved, parent_root]

theorem link_settled (sets : DisjointSets κ) (hleft : sets.parent left = left)
    (hright : sets.parent right = right) (hne : left ≠ right) (key : κ) :
    Function.update sets.parent left right
        ((Function.update sets.parent left right)^[sets.links + 1] key) =
      (Function.update sets.parent left right)^[sets.links + 1] key := by
  rw [sets.link_iterate hleft hright hne, moved]
  split
  · rw [Function.update_of_ne hne.symm, hright]
  · rename_i h
    rw [Function.update_of_ne h, parent_root]

def link (sets : DisjointSets κ) (left right : κ) (hleft : sets.parent left = left)
    (hright : sets.parent right = right) (hne : left ≠ right) : DisjointSets κ :=
  ⟨Function.update sets.parent left right, sets.links + 1,
    sets.link_settled hleft hright hne⟩

theorem find_root_left (sets : DisjointSets κ) (left right : κ) :
    ((sets.find left).2.find right).2.parent (sets.find left).1 = (sets.find left).1 := by
  have h := ((sets.find left).2.find right).2.parent_root left
  rwa [root_find, root_find, ← find_fst] at h

theorem find_root_right (sets : DisjointSets κ) (left right : κ) :
    ((sets.find left).2.find right).2.parent ((sets.find left).2.find right).1 =
      ((sets.find left).2.find right).1 := by
  have h := ((sets.find left).2.find right).2.parent_root right
  rwa [root_find, ← find_fst] at h

def union (sets : DisjointSets κ) (left right : κ) : DisjointSets κ :=
  let leftFound := sets.find left
  let rightFound := leftFound.2.find right
  if h : leftFound.1 ≠ rightFound.1 then
    rightFound.2.link leftFound.1 rightFound.1 (sets.find_root_left left right)
      (sets.find_root_right left right) h
  else rightFound.2

theorem root_union (sets : DisjointSets κ) (left right key : κ) :
    (sets.union left right).root key =
      moved (sets.root left) (sets.root right) (sets.root key) := by
  rw [union]
  by_cases h : (sets.find left).1 ≠ ((sets.find left).2.find right).1
  · rw [dif_pos h, root, link]
    rw [link_iterate _ (sets.find_root_left left right) (sets.find_root_right left right) h]
    simp only [root_find, find_fst]
  · rw [dif_neg h]
    simp only [find_fst, root_find, ne_eq, Decidable.not_not] at h
    rw [root_find, root_find, moved]
    split
    · rename_i hkey
      rw [hkey, h]
    · rfl

/-! ## What a list of unions joins -/

def unions (pairs : List (κ × κ)) : DisjointSets κ :=
  pairs.foldl (fun sets pair => sets.union pair.1 pair.2) singletons

theorem Partitions.union (h : sets.Partitions r) (left right : κ) :
    (sets.union left right).Partitions fun a b => r a b ∨ (a = left ∧ b = right) := by
  have hweaker : ∀ {a b}, Relation.EqvGen r a b →
      Relation.EqvGen (fun a b => r a b ∨ (a = left ∧ b = right)) a b :=
    fun hab => hab.mono fun _ _ => .inl
  have hpair : Relation.EqvGen (fun a b => r a b ∨ (a = left ∧ b = right)) left right :=
    .rel _ _ (.inr ⟨rfl, rfl⟩)
  intro a b
  rw [root_union, root_union]
  constructor
  · intro heq
    rw [moved, moved] at heq
    by_cases ha : sets.root a = sets.root left
    · have hal := hweaker ((h a left).1 ha)
      rw [if_pos ha] at heq
      by_cases hb : sets.root b = sets.root left
      · exact hal.trans _ _ _ ((hweaker ((h b left).1 hb)).symm _ _)
      · rw [if_neg hb] at heq
        exact hal.trans _ _ _ (hpair.trans _ _ _ (hweaker ((h right b).1 heq)))
    · rw [if_neg ha] at heq
      by_cases hb : sets.root b = sets.root left
      · rw [if_pos hb] at heq
        exact (hweaker ((h a right).1 heq)).trans _ _ _
          ((hpair.symm _ _).trans _ _ _ ((hweaker ((h b left).1 hb)).symm _ _))
      · rw [if_neg hb] at heq
        exact hweaker ((h a b).1 heq)
  · intro hchain
    induction hchain with
    | rel x y hxy =>
      rcases hxy with hxy | ⟨rfl, rfl⟩
      · rw [(h x y).2 (.rel _ _ hxy)]
      · rw [moved, moved, if_pos rfl]
        split <;> rfl
    | refl _ => rfl
    | symm _ _ _ ih => exact ih.symm
    | trans _ _ _ _ _ ihab ihbc => exact ihab.trans ihbc

theorem Partitions.foldl (h : sets.Partitions r) (pairs : List (κ × κ)) :
    (pairs.foldl (fun sets pair => sets.union pair.1 pair.2) sets).Partitions
      fun a b => r a b ∨ (a, b) ∈ pairs := by
  induction pairs generalizing sets r with
  | nil =>
    intro a b
    simp only [List.foldl_nil, List.not_mem_nil, or_false]
    exact h a b
  | cons pair pairs ih =>
    rw [List.foldl_cons]
    have hrest := ih (h.union pair.1 pair.2)
    intro a b
    rw [hrest a b]
    have hsame : (fun a b => (r a b ∨ (a = pair.1 ∧ b = pair.2)) ∨ (a, b) ∈ pairs) =
        fun a b => r a b ∨ (a, b) ∈ pair :: pairs := by
      funext a b
      rw [List.mem_cons, ← or_assoc, Prod.ext_iff]
    rw [hsame]

/-- **The sets are the chains**: after a list of unions two keys have one root
    exactly when a chain of the pairs joins them. -/
theorem root_unions_iff (pairs : List (κ × κ)) (a b : κ) :
    (unions pairs).root a = (unions pairs).root b ↔
      Relation.EqvGen (fun a b => (a, b) ∈ pairs) a b := by
  rw [unions, partitions_singletons.foldl pairs a b]
  simp only [false_or]

end DisjointSets
end AgenticGit
