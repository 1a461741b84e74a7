import Mathlib.Data.List.Basic
import Mathlib.Data.List.DropRight
import Mathlib.Data.List.TakeWhile
import Mathlib.Data.Int.Order.Basic
import Mathlib.Tactic.Common

/- The numbers and the strings of JSON text, as the language's own
   `JSON.stringify` writes them, and how each is read back.

   A string is its UTF-16 code units, which need not pair up into characters. A
   number is the decimal its printed form shows: digits, where the point stands
   among them, and a sign. Every finite number has one such decimal, the
   shortest that reads back as it.

   What is proved:
     1. `printNumber_injective` — numbers with the same text are the same.
     2. `printNumber_units` — which units a number is written with, so that a
        reader knows where it ends.
     3. `quote_inj` — a quoted string is read back, whatever follows it. -/
namespace AgenticGit.Json

/-- A string of the language: its UTF-16 code units. -/
abbrev Units := List UInt16

/-- The code units of a string literal in ASCII. -/
def ascii (s : String) : Units := s.toList.map fun c => UInt16.ofNat c.toNat

/-! ## Reading a text from the left -/

theorem takeWhile_stop {α : Type} {p : α → Bool} {xs r : List α} (hx : ∀ x ∈ xs, p x = true)
    (hr : ∀ c ∈ r.head?, p c = false) : (xs ++ r).takeWhile p = xs := by
  induction xs with
  | nil =>
    cases r with
    | nil => rfl
    | cons c r => simp [hr c (by simp)]
  | cons x xs ih =>
    rw [List.forall_mem_cons] at hx
    simp [hx.1, ih hx.2]

theorem dropWhile_stop {α : Type} {p : α → Bool} {xs r : List α} (hx : ∀ x ∈ xs, p x = true)
    (hr : ∀ c ∈ r.head?, p c = false) : (xs ++ r).dropWhile p = r := by
  have h := List.takeWhile_append_dropWhile (p := p) (l := xs ++ r)
  rw [takeWhile_stop hx hr] at h
  exact List.append_cancel_left h

theorem append_inj_stop {α : Type} {p : α → Bool} {xs ys r r' : List α}
    (hx : ∀ x ∈ xs, p x = true) (hy : ∀ y ∈ ys, p y = true) (hr : ∀ c ∈ r.head?, p c = false)
    (hr' : ∀ c ∈ r'.head?, p c = false) (h : xs ++ r = ys ++ r') : xs = ys ∧ r = r' := by
  have hxs : xs = ys := by rw [← takeWhile_stop hx hr, h, takeWhile_stop hy hr']
  subst hxs
  exact ⟨rfl, List.append_cancel_left h⟩

/-! ## Numbers -/

/-- A decimal that is not zero: its significant digits, and how many of them
stand before the point (fewer than none, or more than there are, when zeros
fill the space between). -/
structure Numeral where
  negative : Bool
  digits : List (Fin 10)
  point : Int
  digits_ne : digits ≠ []
  head_ne : digits.head digits_ne ≠ 0
  last_ne : digits.getLast digits_ne ≠ 0
  deriving DecidableEq, Repr

inductive Number where
  | zero
  | nonzero (numeral : Numeral)
  deriving DecidableEq, Repr

def digitUnit (d : Fin 10) : UInt16 := UInt16.ofNat (48 + d)

def zeroUnit : UInt16 := 48
def pointUnit : UInt16 := 46
def exponentUnit : UInt16 := 101
def minusUnit : UInt16 := 45
def plusUnit : UInt16 := 43

def natUnits (n : Nat) : Units := (Nat.toDigits 10 n).map fun c => UInt16.ofNat c.toNat

/-- The significant digits of a numeral, as they are written. -/
def Numeral.units (n : Numeral) : Units := n.digits.map digitUnit

/-- The exponent part: `e`, its sign and its digits. -/
def printExponent (exponent : Int) : Units :=
  exponentUnit :: (if exponent < 0 then minusUnit else plusUnit) :: natUnits exponent.natAbs

/-- `Number.prototype.toString`, without the sign. -/
def Numeral.magnitude (n : Numeral) : Units :=
  let k : Int := n.digits.length
  if k ≤ n.point ∧ n.point ≤ 21 then
    n.units ++ List.replicate (n.point - k).toNat zeroUnit
  else if 0 < n.point ∧ n.point ≤ 21 then
    n.units.take n.point.toNat ++ pointUnit :: n.units.drop n.point.toNat
  else if -6 < n.point ∧ n.point ≤ 0 then
    zeroUnit :: pointUnit :: List.replicate (-n.point).toNat zeroUnit ++ n.units
  else if n.digits.length = 1 then
    n.units ++ printExponent (n.point - 1)
  else
    n.units.take 1 ++ pointUnit :: n.units.drop 1 ++ printExponent (n.point - 1)

def printNumber : Number → Units
  | .zero => [zeroUnit]
  | .nonzero n => if n.negative then minusUnit :: n.magnitude else n.magnitude

/-! Reading a number back: the digits around the point without the zeros at
either end, and where the point stands. -/

def isDigitUnit (u : UInt16) : Bool := 48 ≤ u ∧ u ≤ 57

def natValue (units : Units) : Nat :=
  Nat.ofDigitChars 10 (units.map fun u => Char.ofNat u.toNat) 0

def exponentValue : Units → Int
  | _ :: sign :: digits => if sign = minusUnit then -natValue digits else natValue digits
  | _ => 0

def readMagnitude (units : Units) : Units × Int :=
  let mantissa := units.takeWhile (· ≠ exponentUnit)
  let whole := mantissa.takeWhile (· ≠ pointUnit)
  let digits := whole ++ (mantissa.dropWhile (· ≠ pointUnit)).drop 1
  ((digits.dropWhile (· = zeroUnit)).rdropWhile (· = zeroUnit),
    whole.length - (digits.takeWhile (· = zeroUnit)).length +
      exponentValue (units.dropWhile (· ≠ exponentUnit)))

theorem digitUnit_injective : Function.Injective digitUnit := by
  intro a b h
  revert a b
  decide

theorem isDigitUnit_digitUnit (d : Fin 10) : isDigitUnit (digitUnit d) = true := by
  revert d
  decide

theorem digit_ne_point {u : UInt16} (h : isDigitUnit u = true) : u ≠ pointUnit := by
  rintro rfl
  exact absurd h (by decide)

theorem digit_ne_exponent {u : UInt16} (h : isDigitUnit u = true) : u ≠ exponentUnit := by
  rintro rfl
  exact absurd h (by decide)

theorem digitChar_bounds {n : Nat} {c : Char} (h : c ∈ Nat.toDigits 10 n) :
    48 ≤ c.toNat ∧ c.toNat ≤ 57 := by
  have hd := Nat.isDigit_of_mem_toDigits (by decide) (by decide) h
  simp only [Char.isDigit, Bool.and_eq_true, decide_eq_true_eq] at hd
  exact hd

theorem digitChar_toNat {n : Nat} {c : Char} (h : c ∈ Nat.toDigits 10 n) :
    (UInt16.ofNat c.toNat).toNat = c.toNat := by
  have hc := digitChar_bounds h
  exact UInt16.toNat_ofNat_of_lt' (show c.toNat < 65536 by omega)

theorem natUnits_digits (n : Nat) : ∀ u ∈ natUnits n, isDigitUnit u = true := by
  intro u hu
  obtain ⟨c, hc, rfl⟩ := List.mem_map.mp hu
  unfold isDigitUnit
  rw [decide_eq_true_eq, UInt16.le_iff_toNat_le, UInt16.le_iff_toNat_le, digitChar_toNat hc]
  exact digitChar_bounds hc

theorem natValue_natUnits (n : Nat) : natValue (natUnits n) = n := by
  have hmap : (natUnits n).map (fun u => Char.ofNat u.toNat) = Nat.toDigits 10 n := by
    unfold natUnits
    rw [List.map_map]
    refine (List.map_congr_left fun c hc => ?_).trans (List.map_id _)
    show Char.ofNat (UInt16.ofNat c.toNat).toNat = c
    rw [digitChar_toNat hc, Char.ofNat_toNat]
  rw [natValue, hmap, Nat.ofDigitChars_ten_toDigits]

theorem exponentValue_printExponent (exponent : Int) :
    exponentValue (printExponent exponent) = exponent := by
  show (if (if exponent < 0 then minusUnit else plusUnit) = minusUnit
    then -(natValue (natUnits exponent.natAbs) : Int) else _) = exponent
  rw [natValue_natUnits]
  by_cases h : exponent < 0
  · rw [if_pos h, if_pos rfl]
    omega
  · rw [if_neg h, if_neg (by decide)]
    omega

theorem rdropWhile_zeros {ds : Units} (hne : ds ≠ []) (hlast : ds.getLast hne ≠ zeroUnit)
    (b : Nat) : (ds ++ List.replicate b zeroUnit).rdropWhile (· = zeroUnit) = ds := by
  induction b with
  | zero =>
    rw [List.replicate_zero, List.append_nil, List.rdropWhile_eq_self_iff]
    intro _
    rw [decide_eq_true_eq]
    exact hlast
  | succ b ih =>
    rw [List.replicate_succ', ← List.append_assoc]
    exact (List.rdropWhile_concat_pos (· = zeroUnit) _ _ (by simp)).trans ih

/-- What `readMagnitude` makes of digits around an optional point, when they
are the significant digits `ds` between zeros. -/
theorem readMagnitude_parts {ds whole fraction pointed rest : Units} {a b : Nat}
    (hne : ds ≠ []) (hhead : ds.head hne ≠ zeroUnit) (hlast : ds.getLast hne ≠ zeroUnit)
    (hd : whole ++ fraction = List.replicate a zeroUnit ++ (ds ++ List.replicate b zeroUnit))
    (hw : ∀ u ∈ whole ++ fraction, isDigitUnit u = true)
    (hp : pointed = [] ∧ fraction = [] ∨ pointed = pointUnit :: fraction)
    (hr : ∀ c ∈ rest.head?, c = exponentUnit) :
    readMagnitude (whole ++ pointed ++ rest) = (ds, whole.length - a + exponentValue rest) := by
  have hwhole : ∀ u ∈ whole, isDigitUnit u = true := fun u hu => hw u (List.mem_append_left _ hu)
  have hfrac : ∀ u ∈ fraction, isDigitUnit u = true := fun u hu => hw u (List.mem_append_right _ hu)
  have hmantissa : ∀ u ∈ whole ++ pointed, decide (u ≠ exponentUnit) = true := by
    intro u hu
    rw [decide_eq_true_eq]
    rcases List.mem_append.mp hu with hu | hu
    · exact digit_ne_exponent (hwhole u hu)
    · rcases hp with ⟨rfl, -⟩ | rfl
      · cases hu
      · rcases List.mem_cons.mp hu with rfl | hu
        · decide
        · exact digit_ne_exponent (hfrac u hu)
  have hrest : ∀ c ∈ rest.head?, decide (c ≠ exponentUnit) = false := by
    intro c hc
    simp [hr c hc]
  have hpoint : ∀ u ∈ whole, decide (u ≠ pointUnit) = true :=
    fun u hu => decide_eq_true (digit_ne_point (hwhole u hu))
  have hstop : ∀ c ∈ pointed.head?, decide (c ≠ pointUnit) = false := by
    rcases hp with ⟨rfl, -⟩ | rfl <;> simp
  have hfraction : pointed.drop 1 = fraction := by
    rcases hp with ⟨rfl, rfl⟩ | rfl <;> rfl
  have hzeros : ∀ u ∈ List.replicate a zeroUnit, decide (u = zeroUnit) = true :=
    fun u hu => decide_eq_true (List.eq_of_mem_replicate hu)
  have hsig : ∀ c ∈ (ds ++ List.replicate b zeroUnit).head?, decide (c = zeroUnit) = false := by
    intro c hc
    rw [List.head?_append_of_ne_nil _ hne, List.head?_eq_some_head hne] at hc
    obtain rfl := Option.some.inj hc
    exact decide_eq_false hhead
  simp only [readMagnitude, takeWhile_stop hmantissa hrest, dropWhile_stop hmantissa hrest,
    takeWhile_stop hpoint hstop, dropWhile_stop hpoint hstop, hfraction, hd,
    takeWhile_stop hzeros hsig, dropWhile_stop hzeros hsig, List.length_replicate,
    rdropWhile_zeros hne hlast]

namespace Numeral

theorem units_ne (n : Numeral) : n.units ≠ [] := by
  simpa [units] using n.digits_ne

theorem units_length (n : Numeral) : n.units.length = n.digits.length := List.length_map _

theorem units_digits (n : Numeral) : ∀ u ∈ n.units, isDigitUnit u = true := by
  intro u hu
  obtain ⟨d, -, rfl⟩ := List.mem_map.mp hu
  exact isDigitUnit_digitUnit d

theorem head_units (n : Numeral) : n.units.head n.units_ne ≠ zeroUnit := by
  intro h
  apply n.head_ne
  apply digitUnit_injective
  exact (List.head_map ..).symm.trans h

theorem last_units (n : Numeral) : n.units.getLast n.units_ne ≠ zeroUnit := by
  intro h
  apply n.last_ne
  apply digitUnit_injective
  exact (List.getLast_map ..).symm.trans h

theorem readMagnitude_layout (n : Numeral) (whole fraction pointed rest : Units) (a b : Nat)
    (hd : whole ++ fraction =
      List.replicate a zeroUnit ++ (n.units ++ List.replicate b zeroUnit))
    (hp : pointed = [] ∧ fraction = [] ∨ pointed = pointUnit :: fraction)
    (hr : ∀ c ∈ rest.head?, c = exponentUnit)
    (hpoint : whole.length - a + exponentValue rest = n.point) :
    readMagnitude (whole ++ pointed ++ rest) = (n.units, n.point) := by
  rw [← hpoint]
  refine readMagnitude_parts n.units_ne n.head_units n.last_units hd ?_ hp hr
  rw [hd]
  intro u hu
  have zeros {k : Nat} (hu : u ∈ List.replicate k zeroUnit) : isDigitUnit u = true := by
    rw [List.eq_of_mem_replicate hu]
    decide
  rcases List.mem_append.mp hu with hu | hu
  · exact zeros hu
  · rcases List.mem_append.mp hu with hu | hu
    · exact n.units_digits u hu
    · exact zeros hu

/-- **The significant digits and the point are read back.** -/
theorem readMagnitude_magnitude (n : Numeral) : readMagnitude n.magnitude = (n.units, n.point) := by
  have hlen := List.length_pos_of_ne_nil n.units_ne
  have hl := n.units_length
  have hexp : ∀ c ∈ (printExponent (n.point - 1)).head?, c = exponentUnit := by
    intro c hc
    exact (Option.some.inj hc).symm
  simp only [magnitude]
  by_cases h₁ : (n.digits.length : Int) ≤ n.point ∧ n.point ≤ 21
  · rw [if_pos h₁]
    have := n.readMagnitude_layout
      (n.units ++ List.replicate (n.point - n.digits.length).toNat zeroUnit) [] [] []
      0 (n.point - n.digits.length).toNat (by simp) (by simp) (by simp)
      (by simp [exponentValue]; omega)
    simpa using this
  rw [if_neg h₁]
  by_cases h₂ : 0 < n.point ∧ n.point ≤ 21
  · rw [if_pos h₂]
    have := n.readMagnitude_layout (n.units.take n.point.toNat) (n.units.drop n.point.toNat)
      (pointUnit :: n.units.drop n.point.toNat) [] 0 0 (by simp) (by simp) (by simp)
      (by simp [exponentValue]; omega)
    simpa using this
  rw [if_neg h₂]
  by_cases h₃ : -6 < n.point ∧ n.point ≤ 0
  · rw [if_pos h₃]
    have := n.readMagnitude_layout [zeroUnit]
      (List.replicate (-n.point).toNat zeroUnit ++ n.units)
      (pointUnit :: (List.replicate (-n.point).toNat zeroUnit ++ n.units)) []
      ((-n.point).toNat + 1) 0 (by simp [List.replicate_succ]) (by simp) (by simp)
      (by simp [exponentValue]; omega)
    simpa using this
  rw [if_neg h₃]
  by_cases h₄ : n.digits.length = 1
  · rw [if_pos h₄]
    have := n.readMagnitude_layout n.units [] [] (printExponent (n.point - 1)) 0 0
      (by simp) (by simp) hexp (by rw [exponentValue_printExponent]; omega)
    simpa using this
  · rw [if_neg h₄]
    exact n.readMagnitude_layout (n.units.take 1) (n.units.drop 1)
      (pointUnit :: n.units.drop 1) (printExponent (n.point - 1)) 0 0
      (by rw [List.take_append_drop]; simp) (by simp) hexp
      (by rw [exponentValue_printExponent, List.length_take]; omega)

end Numeral

/-! ## A number and what follows it -/

def isNumberUnit (u : UInt16) : Bool :=
  isDigitUnit u || u = pointUnit || u = exponentUnit || u = minusUnit || u = plusUnit

theorem isNumberUnit_digit {u : UInt16} (h : isDigitUnit u = true) : isNumberUnit u = true := by
  simp [isNumberUnit, h]

theorem printExponent_units (exponent : Int) :
    ∀ u ∈ printExponent exponent, isNumberUnit u = true := by
  intro u hu
  rcases List.mem_cons.mp hu with rfl | hu
  · decide
  rcases List.mem_cons.mp hu with rfl | hu
  · split <;> decide
  · exact isNumberUnit_digit (natUnits_digits _ u hu)

theorem Numeral.magnitude_units (n : Numeral) : ∀ u ∈ n.magnitude, isNumberUnit u = true := by
  have zeros (k : Nat) : ∀ u ∈ List.replicate k zeroUnit, isNumberUnit u = true := by
    intro u hu
    rw [List.eq_of_mem_replicate hu]
    decide
  have digits : ∀ u ∈ n.units, isNumberUnit u = true :=
    fun u hu => isNumberUnit_digit (n.units_digits u hu)
  have taken (k : Nat) : ∀ u ∈ n.units.take k, isNumberUnit u = true :=
    fun u hu => digits u (List.mem_of_mem_take hu)
  have dropped (k : Nat) : ∀ u ∈ n.units.drop k, isNumberUnit u = true :=
    fun u hu => digits u (List.mem_of_mem_drop hu)
  have hpoint : isNumberUnit pointUnit = true := by decide
  have hzero : isNumberUnit zeroUnit = true := by decide
  unfold magnitude
  simp only
  split_ifs
  · exact List.forall_mem_append.mpr ⟨digits, zeros _⟩
  · exact List.forall_mem_append.mpr ⟨taken _, List.forall_mem_cons.mpr ⟨hpoint, dropped _⟩⟩
  · exact List.forall_mem_append.mpr
      ⟨List.forall_mem_cons.mpr ⟨hzero, List.forall_mem_cons.mpr ⟨hpoint, zeros _⟩⟩, digits⟩
  · exact List.forall_mem_append.mpr ⟨digits, printExponent_units _⟩
  · exact List.forall_mem_append.mpr ⟨List.forall_mem_append.mpr
      ⟨taken _, List.forall_mem_cons.mpr ⟨hpoint, dropped _⟩⟩, printExponent_units _⟩

theorem printNumber_units (n : Number) : ∀ u ∈ printNumber n, isNumberUnit u = true := by
  cases n with
  | zero =>
    intro u hu
    rw [List.mem_singleton.mp hu]
    decide
  | nonzero n =>
    simp only [printNumber]
    split
    · exact List.forall_mem_cons.mpr ⟨by decide, n.magnitude_units⟩
    · exact n.magnitude_units

theorem Numeral.magnitude_head (n : Numeral) :
    ∃ u rest, n.magnitude = u :: rest ∧ isDigitUnit u = true := by
  obtain ⟨u, us, hu⟩ := List.exists_cons_of_ne_nil n.units_ne
  have hd : isDigitUnit u = true := n.units_digits u (hu ▸ List.mem_cons_self)
  unfold magnitude
  simp only [hu]
  split_ifs with h₁ h₂
  · exact ⟨u, _, rfl, hd⟩
  · obtain ⟨k, hk⟩ : ∃ k, n.point.toNat = k + 1 := ⟨n.point.toNat - 1, by omega⟩
    rw [hk]
    exact ⟨u, _, rfl, hd⟩
  · exact ⟨zeroUnit, _, rfl, by decide⟩
  · exact ⟨u, _, rfl, hd⟩
  · exact ⟨u, _, rfl, hd⟩

theorem printNumber_head (n : Number) :
    ∃ u rest, printNumber n = u :: rest ∧ (isDigitUnit u = true ∨ u = minusUnit) := by
  cases n with
  | zero => exact ⟨zeroUnit, [], rfl, .inl (by decide)⟩
  | nonzero n =>
    simp only [printNumber]
    split
    · exact ⟨minusUnit, _, rfl, .inr rfl⟩
    · obtain ⟨u, rest, hn, hu⟩ := n.magnitude_head
      exact ⟨u, rest, hn, .inl hu⟩

theorem Numeral.ext_reading {m n : Numeral} (hs : m.negative = n.negative)
    (hm : m.magnitude = n.magnitude) : m = n := by
  have h : (m.units, m.point) = (n.units, n.point) := by
    rw [← m.readMagnitude_magnitude, hm, n.readMagnitude_magnitude]
  obtain ⟨hu, hp⟩ := Prod.mk.inj h
  have hd : m.digits = n.digits := List.map_injective_iff.mpr digitUnit_injective hu
  cases m
  cases n
  simp_all

/-- **Numbers with the same text are the same number.** -/
theorem printNumber_injective : Function.Injective printNumber := by
  have zero_ne (n : Numeral) : printNumber .zero ≠ printNumber (.nonzero n) := by
    intro h
    simp only [printNumber] at h
    split at h
    · exact absurd (List.cons.inj h).1 (by decide)
    · have := n.readMagnitude_magnitude
      rw [← h] at this
      exact n.units_ne (congrArg Prod.fst this).symm
  have minus_ne {m n : Numeral} : minusUnit :: m.magnitude ≠ n.magnitude := by
    intro h
    obtain ⟨u, rest, hn, hu⟩ := n.magnitude_head
    rw [hn] at h
    obtain rfl := (List.cons.inj h).1
    exact absurd hu (by decide)
  intro m n h
  cases m with
  | zero =>
    cases n with
    | zero => rfl
    | nonzero n => exact absurd h (zero_ne n)
  | nonzero m =>
    cases n with
    | zero => exact absurd h.symm (zero_ne m)
    | nonzero n =>
      simp only [printNumber] at h
      congr 1
      cases hm : m.negative <;> cases hn : n.negative <;> rw [hm, hn] at h
      · exact Numeral.ext_reading (hm.trans hn.symm) h
      · exact absurd h.symm minus_ne
      · exact absurd h minus_ne
      · exact Numeral.ext_reading (hm.trans hn.symm) (List.cons.inj h).2

/-! ## Strings -/

def isHighSurrogate (u : UInt16) : Bool := 0xD800 ≤ u ∧ u ≤ 0xDBFF

def isLowSurrogate (u : UInt16) : Bool := 0xDC00 ≤ u ∧ u ≤ 0xDFFF

def quoteUnit : UInt16 := 34
def backslashUnit : UInt16 := 92

def hexUnit (n : Nat) : UInt16 := UInt16.ofNat (if n < 10 then 48 + n else 87 + n)

/-- The four hexadecimal digits of a code unit. -/
def hexUnits (u : UInt16) : Units :=
  [hexUnit (u.toNat / 4096), hexUnit (u.toNat / 256 % 16), hexUnit (u.toNat / 16 % 16),
    hexUnit (u.toNat % 16)]

/-- The letter after the backslash, for the units that have a short escape. -/
def shortEscape (u : UInt16) : Option UInt16 :=
  if u = 8 then some 98
  else if u = 9 then some 116
  else if u = 10 then some 110
  else if u = 12 then some 102
  else if u = 13 then some 114
  else if u = quoteUnit then some quoteUnit
  else if u = backslashUnit then some backslashUnit
  else none

/-- How a unit that is not half of a pair is written. -/
def escapeUnit (u : UInt16) : Units :=
  match shortEscape u with
  | some letter => [backslashUnit, letter]
  | none =>
    if u < 32 ∨ isHighSurrogate u ∨ isLowSurrogate u then backslashUnit :: 117 :: hexUnits u
    else [u]

/-- The units between the quotes; `paired` when the unit before was the first
half of a pair, whose second half is written as it is. -/
def quoteUnits : Bool → Units → Units
  | _, [] => []
  | true, u :: rest => u :: quoteUnits false rest
  | false, u :: rest =>
    if isHighSurrogate u ∧ rest.head?.any isLowSurrogate then u :: quoteUnits true rest
    else escapeUnit u ++ quoteUnits false rest

/-- `JSON.stringify` of a string. -/
def quote (s : Units) : Units := quoteUnit :: quoteUnits false s ++ [quoteUnit]

def hexValue (u : UInt16) : Nat := if u.toNat < 58 then u.toNat - 48 else u.toNat - 87

/-- What the letter of a short escape stands for. -/
def unescapeLetter (letter : UInt16) : UInt16 :=
  if letter = 98 then 8
  else if letter = 116 then 9
  else if letter = 110 then 10
  else if letter = 102 then 12
  else if letter = 114 then 13
  else letter

/-- Reads one unit of a quoted string; `none` at the closing quote. -/
def readUnit : Units → Option (UInt16 × Units)
  | [] => none
  | u :: rest =>
    if u = quoteUnit then none
    else if u = backslashUnit then
      match rest with
      | [] => none
      | letter :: rest =>
        if letter = 117 then
          match rest with
          | a :: b :: c :: d :: rest =>
            some (UInt16.ofNat (hexValue a * 4096 + hexValue b * 256 + hexValue c * 16 +
              hexValue d), rest)
          | _ => none
        else some (unescapeLetter letter, rest)
    else some (u, rest)

theorem hexValue_hexUnit {n : Nat} (h : n < 16) : hexValue (hexUnit n) = n := by
  revert n
  decide

theorem readUnit_raw {u : UInt16} (hq : u ≠ quoteUnit) (hb : u ≠ backslashUnit) (r : Units) :
    readUnit (u :: r) = some (u, r) := by
  simp only [readUnit]
  rw [if_neg hq, if_neg hb]

theorem readUnit_hex (u : UInt16) (r : Units) :
    readUnit (backslashUnit :: 117 :: hexUnits u ++ r) = some (u, r) := by
  have hu := u.toNat_lt
  have hvalue : u.toNat / 4096 * 4096 + u.toNat / 256 % 16 * 256 + u.toNat / 16 % 16 * 16 +
      u.toNat % 16 = u.toNat := by omega
  show some (UInt16.ofNat (hexValue (hexUnit (u.toNat / 4096)) * 4096 +
    hexValue (hexUnit (u.toNat / 256 % 16)) * 256 + hexValue (hexUnit (u.toNat / 16 % 16)) * 16 +
    hexValue (hexUnit (u.toNat % 16))), r) = _
  rw [hexValue_hexUnit (by omega), hexValue_hexUnit (by omega), hexValue_hexUnit (by omega),
    hexValue_hexUnit (by omega), hvalue, UInt16.ofNat_toNat]

theorem readUnit_short {u letter : UInt16} (h : shortEscape u = some letter) (r : Units) :
    readUnit (backslashUnit :: letter :: r) = some (u, r) := by
  have read : letter ≠ 117 → unescapeLetter letter = u →
      readUnit (backslashUnit :: letter :: r) = some (u, r) := by
    intro hne hu
    show (if letter = 117 then _ else some (unescapeLetter letter, r)) = _
    rw [if_neg hne, hu]
  unfold shortEscape at h
  split_ifs at h with h₁ h₂ h₃ h₄ h₅ h₆ h₇ <;> obtain rfl := Option.some.inj h <;> subst u <;>
    exact read (by decide) (by decide)

theorem readUnit_escape (u : UInt16) (r : Units) :
    readUnit (escapeUnit u ++ r) = some (u, r) := by
  unfold escapeUnit
  cases h : shortEscape u with
  | some letter => exact readUnit_short h r
  | none =>
    simp only
    split
    · exact readUnit_hex u r
    · refine readUnit_raw ?_ ?_ r
      · rintro rfl
        exact absurd h (by decide)
      · rintro rfl
        exact absurd h (by decide)

theorem quoteUnits_cons (u : UInt16) (rest : Units) :
    quoteUnits false (u :: rest) =
      if isHighSurrogate u ∧ rest.head?.any isLowSurrogate then u :: quoteUnits true rest
      else escapeUnit u ++ quoteUnits false rest := rfl

/-- The second half of a pair does follow the first. -/
def Paired (paired : Bool) (s : Units) : Prop :=
  paired = true → s.head?.any isLowSurrogate = true

theorem readUnit_quoteUnits {paired : Bool} {u : UInt16} {s : Units}
    (h : Paired paired (u :: s)) (r : Units) :
    ∃ next, Paired next s ∧
      readUnit (quoteUnits paired (u :: s) ++ r) = some (u, quoteUnits next s ++ r) := by
  cases paired with
  | true =>
    have hu : isLowSurrogate u = true := by simpa using h rfl
    refine ⟨false, fun h => absurd h (by decide), readUnit_raw ?_ ?_ _⟩
    · rintro rfl
      exact absurd hu (by decide)
    · rintro rfl
      exact absurd hu (by decide)
  | false =>
    rw [quoteUnits_cons]
    split
    · rename_i hp
      refine ⟨true, fun _ => hp.2, readUnit_raw ?_ ?_ _⟩
      · rintro rfl
        exact absurd hp.1 (by decide)
      · rintro rfl
        exact absurd hp.1 (by decide)
    · refine ⟨false, fun h => absurd h (by decide), ?_⟩
      rw [List.append_assoc]
      exact readUnit_escape u _

theorem quoteUnits_inj {p q : Bool} {s t r r' : Units} (hp : Paired p s) (hq : Paired q t)
    (h : quoteUnits p s ++ quoteUnit :: r = quoteUnits q t ++ quoteUnit :: r') :
    s = t ∧ r = r' := by
  have closed {p : Bool} (r : Units) : readUnit (quoteUnits p [] ++ quoteUnit :: r) = none := by
    cases p <;> rfl
  induction s generalizing p q t with
  | nil =>
    cases t with
    | nil =>
      have hnil (p : Bool) : quoteUnits p [] = [] := by cases p <;> rfl
      rw [hnil, hnil] at h
      exact ⟨rfl, (List.cons.inj h).2⟩
    | cons u t =>
      obtain ⟨next, -, hr⟩ := readUnit_quoteUnits hq (quoteUnit :: r')
      rw [← h, closed] at hr
      cases hr
  | cons u s ih =>
    obtain ⟨next, hn, hr⟩ := readUnit_quoteUnits hp (quoteUnit :: r)
    cases t with
    | nil =>
      rw [h, closed] at hr
      cases hr
    | cons v t =>
      obtain ⟨next', hn', hr'⟩ := readUnit_quoteUnits hq (quoteUnit :: r')
      rw [h, hr'] at hr
      obtain ⟨rfl, hrest⟩ := Prod.mk.inj (Option.some.inj hr)
      obtain ⟨rfl, rfl⟩ := ih hn hn' hrest.symm
      exact ⟨rfl, rfl⟩

/-- **A quoted string is read back, whatever follows it.** -/
theorem quote_inj {s t r r' : Units} (h : quote s ++ r = quote t ++ r') : s = t ∧ r = r' := by
  have single (s : Units) : Paired false s := fun h => absurd h (by decide)
  apply quoteUnits_inj (single s) (single t)
  simpa [quote] using h

end AgenticGit.Json
