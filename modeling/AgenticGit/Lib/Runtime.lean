import Mathlib.Data.List.Basic
import Mathlib.Data.List.DropRight
import Mathlib.Data.List.Sort
import Mathlib.Data.Int.Order.Basic
import Mathlib.Tactic.Common

/- What several components ask of the JavaScript runtime.

   Correspondence (JavaScript ↔ Lean):
     `Number.isSafeInteger(n)`, n an integer ↔ `IsSafeInteger n`
     `s.toLowerCase()`, `a.localeCompare(b)` ↔ `TextRuntime`: they follow tables
       of Unicode and of the locale, which nothing here reads
     `s.trim()`                              ↔ `trim`
     `[...new Set(xs)]`                      ↔ `unique`
     `xs.sort()` on strings                  ↔ `sortStrings`, by UTF-16 code units -/
namespace AgenticGit.Runtime

/-- `Number.MAX_SAFE_INTEGER`. -/
def maxSafeInteger : Int := 9007199254740991

/-- `Number.isSafeInteger`, on an integer. -/
def IsSafeInteger (n : Int) : Prop := -maxSafeInteger ≤ n ∧ n ≤ maxSafeInteger

instance : DecidablePred IsSafeInteger := fun n =>
  inferInstanceAs (Decidable (-maxSafeInteger ≤ n ∧ n ≤ maxSafeInteger))

/-! ## Results -/

theorem except_bind_ok {ε α β : Type} {x : Except ε α} {f : α → Except ε β} {b : β}
    (h : (x >>= f) = .ok b) : ∃ a, x = .ok a ∧ f a = .ok b := by
  cases x with
  | error e => cases h
  | ok a => exact ⟨a, rfl, h⟩

theorem toOption_eq_some {ε α : Type} {x : Except ε α} {a : α} (h : x.toOption = some a) :
    x = .ok a := by
  cases x with
  | error _ => cases h
  | ok _ => exact congrArg Except.ok (Option.some.inj h)

/-! ## Text -/

/-- The string methods that depend on Unicode tables and on the locale. -/
class TextRuntime where
  toLowerCase : String → String
  localeCompare : String → String → Ordering

export TextRuntime (toLowerCase localeCompare)

/-- The string methods on ASCII text; `localeCompare` on text of lower-case
letters. -/
@[reducible] def asciiRuntime : TextRuntime where
  toLowerCase s := String.ofList (s.toList.map Char.toLower)
  localeCompare a b := compareOfLessAndEq a b

/-- What `trim` strips: white space and line terminators. -/
def isSpace (c : Char) : Bool :=
  (9 ≤ c.toNat && c.toNat ≤ 13) || c.toNat = 0x20 || c.toNat = 0xA0 || c.toNat = 0x1680 ||
    (0x2000 ≤ c.toNat && c.toNat ≤ 0x200A) || c.toNat = 0x2028 || c.toNat = 0x2029 ||
    c.toNat = 0x202F || c.toNat = 0x205F || c.toNat = 0x3000 || c.toNat = 0xFEFF

def trimChars (cs : List Char) : List Char :=
  ((cs.dropWhile isSpace).reverse.dropWhile isSpace).reverse

def trim (s : String) : String := String.ofList (trimChars s.toList)

def charUnits (c : Char) : List Nat :=
  if c.toNat < 0x10000 then [c.toNat]
  else [0xD800 + (c.toNat - 0x10000) / 0x400, 0xDC00 + (c.toNat - 0x10000) % 0x400]

def codeUnits (s : String) : List Nat := s.toList.flatMap charUnits

/-- Code units compared one by one, a prefix first. -/
def unitsLe : List Nat → List Nat → Bool
  | [], _ => true
  | _ :: _, [] => false
  | a :: as, b :: bs => a < b || (a = b && unitsLe as bs)

/-- The order the default comparator of `sort` puts strings in. -/
def StringLe (a b : String) : Prop := unitsLe (codeUnits a) (codeUnits b) = true

instance : DecidableRel StringLe := fun a b =>
  inferInstanceAs (Decidable (unitsLe (codeUnits a) (codeUnits b) = true))

def sortStrings (xs : List String) : List String := xs.insertionSort StringLe

theorem unitsLe_total (as bs : List Nat) : unitsLe as bs = true ∨ unitsLe bs as = true := by
  induction as generalizing bs with
  | nil => exact .inl rfl
  | cons a as ih =>
    cases bs with
    | nil => exact .inr rfl
    | cons b bs =>
      simp only [unitsLe, Bool.or_eq_true, Bool.and_eq_true, decide_eq_true_eq]
      rcases Nat.lt_trichotomy a b with h | rfl | h
      · exact .inl (.inl h)
      · exact (ih bs).imp (fun h => .inr ⟨rfl, h⟩) (fun h => .inr ⟨rfl, h⟩)
      · exact .inr (.inl h)

theorem unitsLe_trans {as bs cs : List Nat} (h₁ : unitsLe as bs = true)
    (h₂ : unitsLe bs cs = true) : unitsLe as cs = true := by
  induction as generalizing bs cs with
  | nil => rfl
  | cons a as ih =>
    cases bs with
    | nil => cases h₁
    | cons b bs =>
      cases cs with
      | nil => cases h₂
      | cons c cs =>
        simp only [unitsLe, Bool.or_eq_true, Bool.and_eq_true, decide_eq_true_eq] at h₁ h₂ ⊢
        rcases h₁ with h₁ | ⟨rfl, h₁⟩
        · rcases h₂ with h₂ | ⟨rfl, -⟩
          · exact .inl (by omega)
          · exact .inl h₁
        · rcases h₂ with h₂ | ⟨rfl, h₂⟩
          · exact .inl h₂
          · exact .inr ⟨rfl, ih h₁ h₂⟩

instance : Std.Total StringLe := ⟨fun a b => unitsLe_total (codeUnits a) (codeUnits b)⟩

instance : IsTrans String StringLe := ⟨fun _ _ _ => unitsLe_trans⟩

theorem sortStrings_sorted (xs : List String) : (sortStrings xs).Pairwise StringLe :=
  List.pairwise_insertionSort StringLe xs

@[simp] theorem mem_sortStrings {xs : List String} {x : String} :
    x ∈ sortStrings xs ↔ x ∈ xs := List.mem_insertionSort StringLe

theorem sortStrings_perm (xs : List String) : (sortStrings xs).Perm xs :=
  List.perm_insertionSort StringLe xs

theorem sortStrings_eq_self {xs : List String} (h : xs.Pairwise StringLe) :
    sortStrings xs = xs := List.Pairwise.insertionSort_eq h

/-! ## Sets, in insertion order -/

def unique {α : Type} [DecidableEq α] : List α → List α
  | [] => []
  | x :: xs => x :: (unique xs).filter (· ≠ x)

def uniqueBy {α κ : Type} [DecidableEq κ] (key : α → κ) : List α → List α
  | [] => []
  | x :: xs => x :: (uniqueBy key xs).filter (key · ≠ key x)

theorem mem_of_uniqueBy {α κ : Type} [DecidableEq κ] {key : α → κ} {x : α} {xs : List α}
    (h : x ∈ uniqueBy key xs) : x ∈ xs := by
  induction xs with
  | nil => cases h
  | cons y ys ih =>
    rcases List.mem_cons.mp h with rfl | h
    · exact List.mem_cons_self
    · exact List.mem_cons_of_mem _ (ih (List.mem_of_mem_filter h))

section
variable {α : Type} [DecidableEq α]

@[simp] theorem mem_unique {xs : List α} {x : α} : x ∈ unique xs ↔ x ∈ xs := by
  induction xs with
  | nil => rfl
  | cons y ys ih =>
    simp only [unique, List.mem_cons, List.mem_filter, ih, decide_eq_true_eq]
    by_cases h : x = y <;> simp [h]

theorem unique_nodup (xs : List α) : (unique xs).Nodup := by
  induction xs with
  | nil => exact List.nodup_nil
  | cons x xs ih =>
    rw [unique, List.nodup_cons]
    exact ⟨by simp, ih.filter _⟩

theorem unique_eq_self {xs : List α} (h : xs.Nodup) : unique xs = xs := by
  induction xs with
  | nil => rfl
  | cons x xs ih =>
    rw [List.nodup_cons] at h
    rw [unique, ih h.2, List.filter_eq_self.mpr]
    intro y hy
    simp only [decide_eq_true_eq]
    rintro rfl
    exact h.1 hy

end

/-! ## trim -/

theorem trimChars_idem (cs : List Char) : trimChars (trimChars cs) = trimChars cs := by
  have hlast : ∀ ds : List Char, (ds.dropWhile isSpace).dropWhile isSpace = ds.dropWhile isSpace :=
    fun ds => List.dropWhile_idempotent isSpace ds
  -- what is left of the front has a first character that is no space, or is empty
  have hfront : (trimChars cs).dropWhile isSpace = trimChars cs := by
    unfold trimChars
    generalize hd : cs.dropWhile isSpace = ds
    have hds : ds.dropWhile isSpace = ds := by rw [← hd, hlast]
    obtain ⟨t, ht⟩ : ds.reverse.dropWhile isSpace <:+ ds.reverse := List.dropWhile_suffix _
    have hpre : (ds.reverse.dropWhile isSpace).reverse ++ t.reverse = ds := by
      rw [← List.reverse_append, ht, List.reverse_reverse]
    cases hr : (ds.reverse.dropWhile isSpace).reverse with
    | nil => rfl
    | cons c rest =>
      rw [hr, List.cons_append] at hpre
      rw [← hpre, List.dropWhile_cons] at hds
      rw [List.dropWhile_cons]
      split at hds
      · rename_i hc
        have := congrArg List.length hds
        have hle := (List.dropWhile_sublist isSpace (l := rest ++ t.reverse)).length_le
        rw [List.length_cons] at this
        omega
      · rename_i hc
        rw [if_neg hc]
  rw [trimChars, hfront]
  conv => lhs; rw [trimChars, List.reverse_reverse, hlast]
  rfl

theorem trim_idem (s : String) : trim (trim s) = trim s := by
  rw [trim, trim, String.toList_ofList, trimChars_idem]

variable {c : Char}

theorem mem_dropWhile_isSpace (hc : isSpace c = false) {cs : List Char} (h : c ∈ cs) :
    c ∈ cs.dropWhile isSpace := by
  induction cs with
  | nil => cases h
  | cons d ds ih =>
    rw [List.dropWhile_cons]
    split
    · rename_i hd
      rcases List.mem_cons.mp h with rfl | h
      · rw [hc] at hd
        cases hd
      · exact ih h
    · exact h

theorem trim_ne_empty (hc : isSpace c = false) {s : String} (h : c ∈ s.toList) : trim s ≠ "" := by
  have hkept : c ∈ trimChars s.toList := by
    unfold trimChars
    rw [List.mem_reverse]
    refine mem_dropWhile_isSpace hc ?_
    rw [List.mem_reverse]
    exact mem_dropWhile_isSpace hc h
  intro hempty
  rw [trim, String.ofList_eq_empty_iff] at hempty
  rw [hempty] at hkept
  cases hkept

theorem trim_eq_empty_iff {s : String} : trim s = "" ↔ s.toList.all isSpace = true := by
  rw [List.all_eq_true]
  constructor
  · intro h c hc
    by_contra hspace
    exact trim_ne_empty (eq_false_of_ne_true hspace) hc h
  · intro h
    unfold trim trimChars
    rw [List.dropWhile_eq_nil_iff.mpr h]
    rfl

theorem isSpace_visible (hlow : 33 ≤ c.toNat) (hhigh : c.toNat ≤ 126) : isSpace c = false := by
  simp [isSpace]
  omega

theorem isSpace_toLower (c : Char) : isSpace c.toLower = isSpace c := by
  unfold Char.toLower
  split
  · rename_i h
    have hlow : 65 ≤ c.toNat := h.1
    have hhigh : c.toNat ≤ 90 := h.2
    have hadd : (c.val + ('a'.val - 'A'.val)).toNat = c.toNat + 32 := by
      rw [UInt32.toNat_add, show ('a'.val - 'A'.val).toNat = 32 from rfl]
      exact Nat.mod_eq_of_lt (by show c.toNat + 32 < _; omega)
    rw [isSpace_visible (by show 33 ≤ (c.val + ('a'.val - 'A'.val)).toNat; omega)
        (by show (c.val + ('a'.val - 'A'.val)).toNat ≤ 126; omega),
      isSpace_visible (by omega) (by omega)]
  · rfl

/-- Texts that differ in case only are blank together. -/
def BlanksAgree [TextRuntime] : Prop :=
  ∀ s t : String, toLowerCase s = toLowerCase t → trim s = "" → trim t = ""

theorem blanksAgree_ascii : @BlanksAgree asciiRuntime := by
  intro s t hlower hs
  have hall : ∀ u : String, u.toList.all isSpace = (u.toList.map Char.toLower).all isSpace := by
    intro u
    simp only [List.all_map, Function.comp_def, isSpace_toLower]
  have hmaps : s.toList.map Char.toLower = t.toList.map Char.toLower :=
    String.ofList_injective hlower
  rw [trim_eq_empty_iff, hall] at hs ⊢
  rw [← hmaps]
  exact hs

/-- `[...new Set(values.map((value) => value.trim()).filter(Boolean))].sort()`. -/
def uniqueStrings (values : List String) : List String :=
  sortStrings (unique ((values.map trim).filter (· ≠ "")))

theorem mem_uniqueStrings {values : List String} {name : String} :
    name ∈ uniqueStrings values ↔ (∃ value ∈ values, trim value = name) ∧ name ≠ "" := by
  simp only [uniqueStrings, mem_sortStrings, mem_unique, List.mem_filter, List.mem_map,
    decide_eq_true_eq]

/-- A list `uniqueStrings` leaves as it is. -/
structure Tidy (values : List String) : Prop where
  trimmed : ∀ value ∈ values, trim value = value
  nonempty : ∀ value ∈ values, value ≠ ""
  nodup : values.Nodup
  sorted : values.Pairwise StringLe

theorem uniqueStrings_tidy (values : List String) : Tidy (uniqueStrings values) := by
  refine ⟨?_, ?_, ?_, sortStrings_sorted _⟩
  · intro value h
    obtain ⟨⟨raw, -, rfl⟩, -⟩ := mem_uniqueStrings.mp h
    exact trim_idem raw
  · intro value h
    exact (mem_uniqueStrings.mp h).2
  · exact (sortStrings_perm _).nodup_iff.mpr (unique_nodup _)

theorem uniqueStrings_eq_self {values : List String} (h : Tidy values) :
    uniqueStrings values = values := by
  have hm : values.map trim = values := by
    conv => rhs; rw [← List.map_id values]
    exact List.map_congr_left fun value hv => h.trimmed value hv
  have hf : values.filter (· ≠ "") = values :=
    List.filter_eq_self.mpr fun value hv => by simpa using h.nonempty value hv
  rw [uniqueStrings, hm, hf, unique_eq_self h.nodup, sortStrings_eq_self h.sorted]

theorem Tidy.filter {values : List String} (h : Tidy values) (p : String → Bool) :
    Tidy (values.filter p) where
  trimmed value hv := h.trimmed value (List.mem_of_mem_filter hv)
  nonempty value hv := h.nonempty value (List.mem_of_mem_filter hv)
  nodup := h.nodup.filter p
  sorted := h.sorted.sublist List.filter_sublist

end AgenticGit.Runtime
