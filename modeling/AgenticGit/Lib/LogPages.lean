import Mathlib.Data.List.Pairwise
import Mathlib.Order.Lattice
import AgenticGit.Lib.Runtime

/- Reading a log in pages, and putting together what overlapping reads found.

   What is proved: what a cursor has passed and the page behind it are what the
   next cursor has passed (`upTo_append_page`), entry by entry as well
   (`upTo_append_next`), and a short page is the end of the log (`upTo_append_short`); the rows of a log, read in any order and more
   than once, are the log again, newest first, once they are sorted and each
   key is kept once (`uniqueBy_newestFirst`), and rows that are read twice
   change nothing in what is kept of them (`uniqueBy_filterMap`). -/
namespace AgenticGit.LogPages
open AgenticGit.Runtime

/-! ## Pages -/

section
variable {α κ : Type} [LinearOrder κ] (key : α → κ)

/-- Each entry comes after the ones before it. -/
def Ascending (l : List α) : Prop := l.Pairwise fun a b => key a < key b

def upTo (c : κ) (l : List α) : List α := l.filter fun a => key a ≤ c

/-- The next `n` entries behind a cursor. -/
def pageAfter (n : Nat) (c : κ) (l : List α) : List α := (l.filter fun a => c < key a).take n

variable {key}

variable {l : List α} {n : Nat}

theorem Ascending.filter (h : Ascending key l) (p : α → Bool) :
    Ascending key (l.filter p) := List.Pairwise.filter p h

theorem Ascending.eq_of_key (h : Ascending key l) {a b : α} (ha : a ∈ l) (hb : b ∈ l)
    (heq : key a = key b) : a = b := by
  induction l with
  | nil => cases ha
  | cons x l ih =>
    obtain ⟨hx, hl⟩ := List.pairwise_cons.1 h
    rcases List.mem_cons.1 ha with hax | hal
    · rcases List.mem_cons.1 hb with hbx | hbl
      · rw [hax, hbx]
      · exact absurd (hax ▸ heq) (ne_of_lt (hx b hbl))
    · rcases List.mem_cons.1 hb with hbx | hbl
      · exact absurd (hbx ▸ heq).symm (ne_of_lt (hx a hal))
      · exact ih hl hal hbl

theorem Ascending.split (h : Ascending key l) (c : κ) :
    upTo key c l ++ l.filter (fun a => c < key a) = l := by
  induction l with
  | nil => rfl
  | cons a l ih =>
    obtain ⟨ha, hl⟩ := List.pairwise_cons.1 h
    rw [upTo]
    by_cases hle : key a ≤ c
    · rw [List.filter_cons_of_pos (by simpa using hle),
        List.filter_cons_of_neg (by simpa using hle), List.cons_append]
      exact congrArg (a :: ·) (ih hl)
    · have hlt := lt_of_not_ge hle
      have hnone : l.filter (fun b => key b ≤ c) = [] := List.filter_eq_nil_iff.2 fun b hb => by
        simp only [decide_eq_true_eq, not_le]
        exact lt_trans hlt (ha b hb)
      have hall : l.filter (fun b => c < key b) = l := List.filter_eq_self.2 fun b hb =>
        decide_eq_true (lt_trans hlt (ha b hb))
      rw [List.filter_cons_of_neg (by simpa using hlt),
        List.filter_cons_of_pos (by simpa using hlt), hnone, hall, List.nil_append]

theorem Ascending.part {front rest : List α} {a : α} (h : Ascending key (front ++ a :: rest)) :
    upTo key (key a) (front ++ a :: rest) = front ++ [a] ∧
      (front ++ a :: rest).filter (fun b => key a < key b) = rest := by
  obtain ⟨-, hrest, hfront⟩ := List.pairwise_append.1 h
  obtain ⟨hlater, -⟩ := List.pairwise_cons.1 hrest
  have hbefore : ∀ b ∈ front, key b < key a := fun b hb => hfront b hb a List.mem_cons_self
  constructor
  · rw [upTo, List.filter_append, List.filter_cons_of_pos (by simp),
      List.filter_eq_self.2 fun b hb => decide_eq_true (le_of_lt (hbefore b hb)),
      List.filter_eq_nil_iff.2 fun b hb => by simpa using hlater b hb]
  · rw [List.filter_append, List.filter_cons_of_neg (by simp),
      List.filter_eq_nil_iff.2 fun b hb => by simpa using le_of_lt (hbefore b hb),
      List.filter_eq_self.2 fun b hb => decide_eq_true (hlater b hb), List.nil_append]

/-- **The first entry of a page is the next one behind the cursor.** -/
theorem upTo_append_next (h : Ascending key l) {c : κ} {a : α} {page : List α}
    (hpage : a :: page <+: l.filter fun b => c < key b) :
    upTo key c l ++ [a] = upTo key (key a) l ∧ page <+: l.filter fun b => key a < key b := by
  obtain ⟨rest, hrest⟩ := hpage
  have hl : upTo key c l ++ a :: (page ++ rest) = l := by
    rw [← List.cons_append, hrest, h.split]
  rw [← hl] at h
  obtain ⟨hupTo, hbehind⟩ := h.part
  rw [hl] at hupTo hbehind
  exact ⟨hupTo.symm, rest, hbehind.symm⟩

/-- **What a cursor has passed and the page behind it are what the cursor has
    passed at the end of the page.** -/
theorem upTo_append_page (h : Ascending key l) {c : κ} {last : α}
    (hlast : (pageAfter key n c l).getLast? = some last) :
    upTo key c l ++ pageAfter key n c l = upTo key (key last) l := by
  have hsplit := h.split c
  obtain ⟨front, hfront⟩ := List.getLast?_eq_some_iff.1 hlast
  have hcut := List.take_append_drop n (l.filter fun a => c < key a)
  rw [show (l.filter fun a => c < key a).take n = pageAfter key n c l from rfl] at hcut
  have hbehind : Ascending key (l.filter fun a => c < key a) := h.filter _
  rw [← hcut, Ascending, List.pairwise_append, hfront] at hbehind
  obtain ⟨hpage, -, hrest⟩ := hbehind
  have hc : c < key last := by
    have hmem := List.mem_of_mem_take (List.mem_of_getLast? hlast)
    exact of_decide_eq_true (List.mem_filter.1 hmem).2
  have hpassed : (upTo key c l ++ pageAfter key n c l).filter (fun a => key a ≤ key last) =
      upTo key c l ++ pageAfter key n c l := List.filter_eq_self.2 fun a ha => by
    rw [decide_eq_true_eq]
    rcases List.mem_append.1 ha with ha | ha
    · exact le_of_lt (lt_of_le_of_lt (of_decide_eq_true (List.mem_filter.1 ha).2) hc)
    · rw [hfront] at ha
      rcases List.mem_append.1 ha with ha | ha
      · exact le_of_lt ((List.pairwise_append.1 hpage).2.2 a ha last (List.mem_singleton_self _))
      · rw [List.mem_singleton.1 ha]
  have hleft : ((l.filter fun a => c < key a).drop n).filter (fun a => key a ≤ key last) = [] :=
    List.filter_eq_nil_iff.2 fun a ha => by
      simp only [decide_eq_true_eq, not_le]
      exact hrest last (List.mem_append_right _ (List.mem_singleton_self _)) a ha
  conv => rhs; rw [upTo, ← hsplit, ← hcut, ← List.append_assoc, List.filter_append, hpassed,
    hleft, List.append_nil]

/-- **A short page is the end of the log.** -/
theorem upTo_append_short (h : Ascending key l) {c : κ} (hshort : (pageAfter key n c l).length < n) :
    upTo key c l ++ pageAfter key n c l = l := by
  have hall : pageAfter key n c l = l.filter fun a => c < key a :=
    List.take_of_length_le (by rw [pageAfter, List.length_take] at hshort; omega)
  rw [hall, h.split]

theorem lt_of_mem_pageAfter {c : κ} {a : α} (h : a ∈ pageAfter key n c l) : c < key a :=
  of_decide_eq_true (List.mem_filter.1 (List.mem_of_mem_take h)).2

end

/-! ## The first of each key -/

section
variable {α β κ : Type} [DecidableEq κ] {key : α → κ}

variable {xs : List α}

theorem mem_uniqueBy_key {x : α} (h : x ∈ xs) : ∃ y ∈ uniqueBy key xs, key y = key x := by
  induction xs with
  | nil => cases h
  | cons y ys ih =>
    by_cases heq : key x = key y
    · exact ⟨y, List.mem_cons_self, heq.symm⟩
    · rcases List.mem_cons.1 h with rfl | h
      · exact absurd rfl heq
      · obtain ⟨z, hz, hkey⟩ := ih h
        exact ⟨z, List.mem_cons_of_mem _ (List.mem_filter.2
          ⟨hz, decide_eq_true (hkey.symm ▸ heq)⟩), hkey⟩

theorem uniqueBy_append (xs ys : List α) :
    ∃ rest, uniqueBy key (xs ++ ys) = uniqueBy key xs ++ rest := by
  induction xs with
  | nil => exact ⟨_, rfl⟩
  | cons x xs ih =>
    obtain ⟨rest, h⟩ := ih
    exact ⟨rest.filter (key · ≠ key x), by
      rw [List.cons_append, uniqueBy, h, List.filter_append, uniqueBy, List.cons_append]⟩

theorem uniqueBy_concat (xs : List α) (x : α) :
    uniqueBy key (xs ++ [x]) =
      uniqueBy key xs ++ if key x ∈ xs.map key then [] else [x] := by
  induction xs with
  | nil => rfl
  | cons y ys ih =>
    rw [List.cons_append, uniqueBy, ih, List.filter_append, uniqueBy, List.cons_append]
    congr 2
    by_cases hys : key x ∈ ys.map key
    · rw [if_pos hys, if_pos (by rw [List.map_cons]; exact List.mem_cons_of_mem _ hys),
        List.filter_nil]
    · rw [if_neg hys]
      by_cases heq : key x = key y
      · rw [if_pos (by rw [heq]; exact List.mem_cons_self),
          List.filter_cons_of_neg (by simpa using heq), List.filter_nil]
      · rw [if_neg (by rw [List.map_cons, List.mem_cons]; exact not_or.2 ⟨heq, hys⟩),
          List.filter_cons_of_pos (by simpa using heq), List.filter_nil]

theorem uniqueBy_filter_ne (xs : List α) (c : κ) :
    (uniqueBy key xs).filter (key · ≠ c) = uniqueBy key (xs.filter (key · ≠ c)) := by
  induction xs with
  | nil => rfl
  | cons x xs ih =>
    rw [uniqueBy]
    by_cases heq : key x = c
    · rw [List.filter_cons_of_neg (by simpa using heq),
        List.filter_cons_of_neg (by simpa using heq),
        List.filter_filter, ← ih, heq]
      simp only [Bool.and_self]
    · rw [List.filter_cons_of_pos (by simpa using heq),
        List.filter_cons_of_pos (by simpa using heq),
        uniqueBy, ← ih, List.filter_filter, List.filter_filter]
      simp only [Bool.and_comm]

theorem uniqueBy_filterMap {γ : Type} [DecidableEq γ] {g : β → γ} {f : α → Option β}
    (h : ∀ x ∈ xs, ∀ y ∈ xs, key x = key y → f x = f y) :
    uniqueBy g (xs.filterMap f) = uniqueBy g ((uniqueBy key xs).filterMap f) := by
  induction xs with
  | nil => rfl
  | cons x xs ih =>
    have hrest := ih fun y hy z hz => h y (List.mem_cons_of_mem _ hy) z (List.mem_cons_of_mem _ hz)
    have hlike : ∀ y ∈ uniqueBy key xs, key y = key x → f y = f x := fun y hy heq =>
      h y (List.mem_cons_of_mem _ (mem_of_uniqueBy hy)) x List.mem_cons_self heq
    rw [uniqueBy, List.filterMap_cons, List.filterMap_cons]
    cases hx : f x with
    | none =>
      have hsame : ((uniqueBy key xs).filter (key · ≠ key x)).filterMap f =
          (uniqueBy key xs).filterMap f := by
        rw [List.filterMap_filter]
        refine List.filterMap_congr fun y hy => ?_
        by_cases heq : key y = key x
        · rw [if_neg (by simpa using heq), hlike y hy heq, hx]
        · rw [if_pos (by simpa using heq)]
      simp only [hsame]
      exact hrest
    | some v =>
      have hsame : (((uniqueBy key xs).filter (key · ≠ key x)).filterMap f).filter (g · ≠ g v) =
          ((uniqueBy key xs).filterMap f).filter (g · ≠ g v) := by
        rw [List.filterMap_filter, List.filter_filterMap, List.filter_filterMap]
        refine List.filterMap_congr fun y hy => ?_
        by_cases heq : key y = key x
        · rw [if_neg (by simpa using heq), hlike y hy heq, hx, Option.filter_some,
            if_neg (by simp), Option.filter_none]
        · rw [if_pos (by simpa using heq)]
      change uniqueBy g (v :: xs.filterMap f) =
        uniqueBy g (v :: ((uniqueBy key xs).filter (key · ≠ key x)).filterMap f)
      rw [uniqueBy, uniqueBy, uniqueBy_filter_ne _ (g v), uniqueBy_filter_ne _ (g v), hsame,
        ← uniqueBy_filter_ne, hrest, uniqueBy_filter_ne]

theorem uniqueBy_eq_unique [DecidableEq α] (h : ∀ x ∈ xs, ∀ y ∈ xs, key x = key y → x = y) :
    uniqueBy key xs = unique xs := by
  induction xs with
  | nil => rfl
  | cons x xs ih =>
    rw [uniqueBy, unique, ih fun y hy z hz =>
      h y (List.mem_cons_of_mem _ hy) z (List.mem_cons_of_mem _ hz)]
    refine congrArg (x :: ·) (List.filter_congr fun y hy => ?_)
    rw [decide_eq_decide, not_iff_not]
    exact ⟨h y (List.mem_cons_of_mem _ (mem_unique.1 hy)) x List.mem_cons_self, congrArg key⟩

end

/-! ## Newest first -/

section
variable {α κ : Type} [LinearOrder κ] (key : α → κ)

def newestFirst (l : List α) : List α := l.insertionSort fun a b => key b ≤ key a

variable {key}

theorem mem_newestFirst {l : List α} {a : α} : a ∈ newestFirst key l ↔ a ∈ l :=
  List.mem_insertionSort _

theorem newestFirst_sorted (l : List α) :
    (newestFirst key l).Pairwise fun a b => key b ≤ key a :=
  have : IsTrans α fun a b => key b ≤ key a := ⟨fun _ _ _ h h' => le_trans h' h⟩
  have : Std.Total fun a b : α => key b ≤ key a := ⟨fun a b => le_total (key b) (key a)⟩
  List.pairwise_insertionSort _ l

theorem uniqueBy_sorted {l : List α} (h : l.Pairwise fun a b => key b ≤ key a) :
    (uniqueBy key l).Pairwise fun a b => key b < key a := by
  induction l with
  | nil => exact .nil
  | cons a l ih =>
    obtain ⟨ha, hl⟩ := List.pairwise_cons.1 h
    rw [uniqueBy, List.pairwise_cons]
    refine ⟨fun b hb => ?_, (ih hl).filter _⟩
    obtain ⟨hmem, hne⟩ := List.mem_filter.1 hb
    exact lt_of_le_of_ne (ha b (mem_of_uniqueBy hmem)) (of_decide_eq_true hne)

/-- **The rows of a log, in any order and more than once, are the log again**,
    newest first, once they are sorted and each key is kept once. -/
theorem uniqueBy_newestFirst {l rows : List α} (h : Ascending key l)
    (hmem : ∀ a, a ∈ rows ↔ a ∈ l) : uniqueBy key (newestFirst key rows) = l.reverse := by
  have hsorted := uniqueBy_sorted (@newestFirst_sorted α κ _ key rows)
  have hreverse : l.reverse.Pairwise fun a b => key b < key a := List.pairwise_reverse.2 h
  have hmem' : ∀ a, a ∈ uniqueBy key (newestFirst key rows) ↔ a ∈ l.reverse := by
    intro a
    rw [List.mem_reverse]
    constructor
    · intro ha
      exact (hmem a).1 (mem_newestFirst.1 (mem_of_uniqueBy ha))
    · intro ha
      obtain ⟨b, hb, hkey⟩ : ∃ b ∈ uniqueBy key (newestFirst key rows), key b = key a :=
        mem_uniqueBy_key (mem_newestFirst.2 ((hmem a).2 ha))
      have hb' := (hmem b).1 (mem_newestFirst.1 (mem_of_uniqueBy hb))
      rwa [← h.eq_of_key hb' ha hkey]
  have : Std.Irrefl fun a b : α => key b < key a := ⟨fun a => lt_irrefl (key a)⟩
  have : Std.Antisymm fun a b : α => key b < key a :=
    ⟨fun a b (hba : key b < key a) hab => absurd hab (lt_asymm hba)⟩
  exact hsorted.eq_of_mem_iff hreverse hmem'

end
end AgenticGit.LogPages
