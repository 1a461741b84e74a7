import Mathlib.Data.List.Basic
import Mathlib.Data.List.Nodup
import Mathlib.Tactic.Common

/- Maps that keep their keys in insertion order, as a JavaScript `Map` does:
   setting a key it has leaves the key where it is, setting a new one puts it
   last.

   `filterMapValues` is the loop that visits each entry once and sets or
   deletes the entry it is at. -/
namespace AgenticGit

universe u v

/-- A map from `κ` to `α` that keeps its keys in insertion order. -/
structure OrderedMap (κ : Type u) (α : Type v) where
  entries : List (κ × α)
  nodup : (entries.map Prod.fst).Nodup

namespace OrderedMap

variable {κ : Type u} {α : Type v}

def empty : OrderedMap κ α := ⟨[], List.nodup_nil⟩

def keys (m : OrderedMap κ α) : List κ := m.entries.map Prod.fst

def values (m : OrderedMap κ α) : List α := m.entries.map Prod.snd

def visit (f : κ → α → Option α) (e : κ × α) : Option (κ × α) := (f e.1 e.2).map (e.1, ·)

theorem filterMap_visit_keys (f : κ → α → Option α) (es : List (κ × α)) :
    ((es.filterMap (visit f)).map Prod.fst).Sublist (es.map Prod.fst) := by
  induction es with
  | nil => exact List.Sublist.slnil
  | cons e es ih =>
    rw [List.filterMap_cons, visit]
    cases f e.1 e.2 with
    | none => exact ih.cons _
    | some a => exact ih.cons_cons _

/-- Visits every entry in order, giving it a new value or deleting it. -/
def filterMapValues (f : κ → α → Option α) (m : OrderedMap κ α) : OrderedMap κ α :=
  ⟨m.entries.filterMap (visit f), m.nodup.sublist (filterMap_visit_keys f m.entries)⟩

variable [DecidableEq κ]

instance [DecidableEq α] : DecidableEq (OrderedMap κ α) := fun m n =>
  decidable_of_iff (m.entries = n.entries) ⟨fun h => by cases m; cases n; cases h; rfl, congrArg _⟩

def get? (m : OrderedMap κ α) (k : κ) : Option α :=
  (m.entries.find? fun e => e.1 = k).map Prod.snd

def has (m : OrderedMap κ α) (k : κ) : Bool := (m.get? k).isSome

/-- The entries after `k` is set to `a`. -/
def setEntries (k : κ) (a : α) : List (κ × α) → List (κ × α)
  | [] => [(k, a)]
  | e :: es => if e.1 = k then (k, a) :: es else e :: setEntries k a es

theorem mem_setEntries_keys {k k' : κ} {a : α} {es : List (κ × α)}
    (h : k' ∈ (setEntries k a es).map Prod.fst) : k' = k ∨ k' ∈ es.map Prod.fst := by
  induction es with
  | nil => exact .inl (by simpa [setEntries] using h)
  | cons e es ih =>
    rw [setEntries] at h
    split at h
    · rcases List.mem_cons.mp h with h | h
      · exact .inl h
      · exact .inr (List.mem_cons_of_mem _ h)
    · rcases List.mem_cons.mp h with h | h
      · exact .inr (h ▸ List.mem_cons_self)
      · exact (ih h).imp_right (List.mem_cons_of_mem _)

theorem setEntries_nodup {k : κ} {a : α} {es : List (κ × α)}
    (h : (es.map Prod.fst).Nodup) : ((setEntries k a es).map Prod.fst).Nodup := by
  induction es with
  | nil => simp [setEntries]
  | cons e es ih =>
    rw [List.map_cons, List.nodup_cons] at h
    rw [setEntries]
    split
    · rename_i he
      rw [List.map_cons, List.nodup_cons]
      exact he ▸ h
    · rename_i he
      rw [List.map_cons, List.nodup_cons]
      refine ⟨fun hm => ?_, ih h.2⟩
      rcases mem_setEntries_keys hm with hk | hm
      · exact he hk
      · exact h.1 hm

def set (m : OrderedMap κ α) (k : κ) (a : α) : OrderedMap κ α :=
  ⟨setEntries k a m.entries, setEntries_nodup m.nodup⟩

def delete (m : OrderedMap κ α) (k : κ) : OrderedMap κ α :=
  ⟨m.entries.filter fun e => e.1 ≠ k, m.nodup.sublist (List.filter_sublist.map _)⟩

/-- The last `n` entries. -/
def keepLast (m : OrderedMap κ α) (n : Nat) : OrderedMap κ α :=
  ⟨m.entries.drop (m.entries.length - n), m.nodup.sublist ((List.drop_sublist _ _).map _)⟩

/-- `new Map(entries)`: a later entry of a key replaces the earlier one's
value. -/
def ofList (entries : List (κ × α)) : OrderedMap κ α :=
  entries.foldl (fun m e => m.set e.1 e.2) empty

/-! ## Lookups -/

variable {m : OrderedMap κ α}

theorem get?_eq_some_iff {k : κ} {a : α} : m.get? k = some a ↔ (k, a) ∈ m.entries := by
  obtain ⟨es, hn⟩ := m
  unfold get?
  dsimp only
  induction es with
  | nil => simp
  | cons e es ih =>
    rw [List.map_cons, List.nodup_cons] at hn
    rw [List.find?_cons]
    by_cases he : e.1 = k
    · subst he
      simp only [decide_true, Option.map_some, Option.some.injEq, List.mem_cons]
      constructor
      · intro h
        exact .inl (h ▸ rfl)
      · rintro (h | h)
        · exact h ▸ rfl
        · exact (hn.1 (List.mem_map.mpr ⟨_, h, rfl⟩)).elim
    · simp only [he, decide_false, List.mem_cons]
      rw [ih hn.2]
      constructor
      · exact .inr
      · rintro (h | h)
        · exact (he (h ▸ rfl)).elim
        · exact h

@[simp] theorem get?_empty (k : κ) : (empty : OrderedMap κ α).get? k = none := rfl

theorem get?_setEntries (k k' : κ) (a : α) (es : List (κ × α)) :
    (((setEntries k a es).find? fun e => e.1 = k').map Prod.snd) =
      if k' = k then some a else (es.find? fun e => e.1 = k').map Prod.snd := by
  induction es with
  | nil => by_cases h : k = k' <;> simp [setEntries, h, Ne.symm]
  | cons e es ih =>
    rw [setEntries]
    split
    · rename_i he
      by_cases h : k = k'
      · simp [h]
      · simp [h, Ne.symm h, he]
    · rename_i he
      rw [List.find?_cons, List.find?_cons]
      by_cases h : e.1 = k'
      · have hk : k' ≠ k := fun hk => he (h.trans hk)
        simp [h, hk]
      · simp only [h, decide_false]
        exact ih

theorem get?_set (m : OrderedMap κ α) (k k' : κ) (a : α) :
    (m.set k a).get? k' = if k' = k then some a else m.get? k' :=
  get?_setEntries k k' a m.entries

theorem get?_filterMapValues (f : κ → α → Option α) (m : OrderedMap κ α) (k : κ) :
    (m.filterMapValues f).get? k = (m.get? k).bind (f k) := by
  apply Option.ext
  intro a
  rw [get?_eq_some_iff, Option.bind_eq_some_iff]
  simp only [filterMapValues, List.mem_filterMap, visit, Option.map_eq_some_iff, Prod.mk.injEq,
    get?_eq_some_iff]
  constructor
  · rintro ⟨e, he, b, hb, rfl, rfl⟩
    exact ⟨e.2, he, hb⟩
  · rintro ⟨b, hb, hf⟩
    exact ⟨(k, b), hb, a, hf, rfl, rfl⟩

theorem mem_of_get?_foldl_set {es : List (κ × α)} {k : κ} {a : α}
    (h : (es.foldl (fun m e => m.set e.1 e.2) m).get? k = some a) :
    (k, a) ∈ es ∨ m.get? k = some a := by
  induction es generalizing m with
  | nil => exact .inr h
  | cons e es ih =>
    rcases ih h with h | h
    · exact .inl (List.mem_cons_of_mem _ h)
    · rw [get?_set] at h
      split at h
      · rename_i hk
        exact .inl (hk ▸ Option.some.inj h ▸ List.mem_cons_self)
      · exact .inr h

theorem mem_of_get?_ofList {es : List (κ × α)} {k : κ} {a : α}
    (h : (ofList es).get? k = some a) : (k, a) ∈ es := by
  rcases mem_of_get?_foldl_set h with h | h
  · exact h
  · cases h

theorem foldl_set_isSome {es : List (κ × α)} {k : κ} (h : (m.get? k).isSome ∨ k ∈ es.map Prod.fst) :
    ((es.foldl (fun m e => m.set e.1 e.2) m).get? k).isSome := by
  induction es generalizing m with
  | nil => exact h.resolve_right (by simp)
  | cons e es ih =>
    rw [List.foldl_cons]
    apply ih
    rw [get?_set]
    split
    · exact .inl rfl
    · rename_i hk
      rcases h with h | h
      · exact .inl h
      · exact .inr ((List.mem_cons.mp h).resolve_left hk)

theorem get?_ofList {es : List (κ × α)} {k : κ} {a : α} (hm : (k, a) ∈ es)
    (hall : ∀ b, (k, b) ∈ es → b = a) : (ofList es).get? k = some a := by
  have hsome : ((ofList es).get? k).isSome :=
    foldl_set_isSome (.inr (List.mem_map.mpr ⟨_, hm, rfl⟩))
  obtain ⟨b, hb⟩ := Option.isSome_iff_exists.mp hsome
  rw [hb, hall b (mem_of_get?_ofList hb)]

theorem mem_values_iff {a : α} : a ∈ m.values ↔ ∃ k, m.get? k = some a := by
  simp only [values, List.mem_map, Prod.exists, get?_eq_some_iff, exists_eq_right]

theorem has_iff {k : κ} : m.has k = true ↔ ∃ a, m.get? k = some a := by
  rw [has, Option.isSome_iff_exists]

theorem get?_delete (m : OrderedMap κ α) (k k' : κ) :
    (m.delete k).get? k' = if k' = k then none else m.get? k' := by
  apply Option.ext
  intro a
  rw [get?_eq_some_iff]
  split
  · rename_i h
    simp [delete, h]
  · rename_i h
    simp [delete, h, get?_eq_some_iff]

theorem get?_of_keepLast {n : Nat} {k : κ} {a : α} (h : (m.keepLast n).get? k = some a) :
    m.get? k = some a :=
  get?_eq_some_iff.mpr (List.mem_of_mem_drop (get?_eq_some_iff.mp h))

end OrderedMap

end AgenticGit
