import Mathlib.Data.List.Basic
import Mathlib.Tactic.Common
import Mathlib.Tactic.IntervalCases

/- Listings: records that each end in a mark, and names printed raw or quoted.

   A name is quoted when it holds a byte that is not printed as it is; quoted, it
   stands between double quotes with such bytes escaped as in C.

   What is proved: records without the mark are read back by splitting at it
   (`splitOn_terminated`); a printable name is printed as it is (`quoteName_printable`). -/
namespace AgenticGit.Listings

/-! ## Records -/

def terminated {α : Type} (mark : α) (records : List (List α)) : List α :=
  records.flatMap fun record => record ++ [mark]

/-- **Splitting at the mark reads the records back**, and finds a blank behind the last. -/
theorem splitOn_terminated {α : Type} [BEq α] [LawfulBEq α] {mark : α} {records : List (List α)}
    (h : ∀ record ∈ records, mark ∉ record) :
    (terminated mark records).splitOn mark = records ++ [[]] := by
  induction records with
  | nil => rfl
  | cons record records ih =>
    rw [List.forall_mem_cons] at h
    rw [terminated, List.flatMap_cons, List.append_assoc, List.singleton_append,
      List.splitOn_append_cons_self_of_not_mem h.1, ← terminated, ih h.2, List.cons_append]

/-! ## Quoted names -/

def charBytes (c : Char) : List Nat :=
  let n := c.toNat
  if n < 0x80 then [n]
  else if n < 0x800 then [0xC0 + n / 0x40, 0x80 + n % 0x40]
  else if n < 0x10000 then [0xE0 + n / 0x1000, 0x80 + n / 0x40 % 0x40, 0x80 + n % 0x40]
  else [0xF0 + n / 0x40000, 0x80 + n / 0x1000 % 0x40, 0x80 + n / 0x40 % 0x40, 0x80 + n % 0x40]

def octalDigit (n : Nat) : Char := Char.ofNat ('0'.toNat + n % 8)

def quoteByte : Nat → List Char
  | 0x07 => ['\\', 'a']
  | 0x08 => ['\\', 'b']
  | 0x09 => ['\\', 't']
  | 0x0A => ['\\', 'n']
  | 0x0B => ['\\', 'v']
  | 0x0C => ['\\', 'f']
  | 0x0D => ['\\', 'r']
  | 0x22 => ['\\', '"']
  | 0x5C => ['\\', '\\']
  | n =>
    if 0x20 ≤ n ∧ n < 0x7F then [Char.ofNat n]
    else ['\\', octalDigit (n / 64), octalDigit (n / 8), octalDigit n]

def Printable (c : Char) : Prop := 0x20 ≤ c.toNat ∧ c.toNat < 0x7F ∧ c ≠ '"' ∧ c ≠ '\\'

instance (c : Char) : Decidable (Printable c) :=
  inferInstanceAs (Decidable (0x20 ≤ c.toNat ∧ c.toNat < 0x7F ∧ c ≠ '"' ∧ c ≠ '\\'))

def quoteName (name : List Char) : List Char :=
  if name.all fun c => decide (Printable c) then name
  else '"' :: (name.flatMap fun c => (charBytes c).flatMap quoteByte) ++ ['"']

theorem all_printable {name : List Char} :
    (name.all fun c => decide (Printable c)) = true ↔ ∀ c ∈ name, Printable c := by
  simp only [List.all_eq_true, decide_eq_true_eq]

theorem quoteName_printable {name : List Char} (h : ∀ c ∈ name, Printable c) :
    quoteName name = name := if_pos (all_printable.2 h)

theorem octalDigit_ne (n : Nat) : octalDigit n ≠ '\n' := by
  have hlt := Nat.mod_lt n (show 8 > 0 by decide)
  rw [octalDigit]
  generalize n % 8 = k at hlt
  interval_cases k <;> decide

theorem not_mem_quoteByte (n : Nat) : '\n' ∉ quoteByte n := by
  unfold quoteByte
  split
  all_goals try decide
  split
  · rename_i hn
    rw [List.mem_singleton]
    have hshown : ∀ k < 0x7F, 0x20 ≤ k → '\n' ≠ Char.ofNat k := by decide
    exact hshown n hn.2 hn.1
  · simp only [List.mem_cons, List.not_mem_nil, or_false, not_or]
    exact ⟨by decide, (octalDigit_ne _).symm, (octalDigit_ne _).symm, (octalDigit_ne _).symm⟩

theorem not_mem_quoteName (name : List Char) : '\n' ∉ quoteName name := by
  rw [quoteName]
  split
  · rename_i h
    exact fun hmem => absurd (all_printable.1 h _ hmem).1 (by decide)
  · simp only [List.cons_append, List.mem_cons, List.mem_append, List.mem_flatMap,
      List.not_mem_nil, or_false, not_or]
    refine ⟨by decide, ?_, by decide⟩
    rintro ⟨c, -, n, -, hn⟩
    exact not_mem_quoteByte n hn

end AgenticGit.Listings
