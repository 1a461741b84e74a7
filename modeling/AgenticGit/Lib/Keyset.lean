import Mathlib.Data.List.Pairwise
import Mathlib.Order.Basic
import Mathlib.Order.Lattice
import Mathlib.Tactic.Common

/- Paging through a sorted list by a key that several entries can share.

   A page takes the first entries of what is left, up to a limit, and goes on
   to the end of the group its last entry belongs to; the next page takes the
   entries below the key of that last one. A page cut inside a group would lose
   the rest of it.

   What is proved: a page and what is below its last key are together what was
   left (`page_append_older`), and the pages are therefore all of the list, in
   order, after at most as many pages as it has entries (`walk_flatten`). -/
namespace AgenticGit.Keyset

variable {α κ : Type} [LinearOrder κ] (key : α → κ)

/-- The entries are in the order of their keys, the greatest first. -/
def Descending (l : List α) : Prop := l.Pairwise fun a b => key b ≤ key a

def older (c : κ) (l : List α) : List α := l.filter fun a => key a < c

def group (c : κ) (l : List α) : List α := l.filter fun a => key a = c

/-- The first `n` entries, with the whole group of the last of them when there are `n`. -/
def page (n : Nat) (l : List α) : List α :=
  let rows := l.take n
  match rows.getLast? with
  | none => []
  | some last =>
    if rows.length = n then rows.filter (fun a => key a ≠ key last) ++ group key (key last) l
    else rows

variable {key}

variable {l : List α} {n : Nat} {limits : Nat → Nat}

theorem Descending.filter (h : Descending key l) (p : α → Bool) :
    Descending key (l.filter p) := List.Pairwise.filter p h

theorem Descending.split (h : Descending key l) (c : κ) :
    l = l.filter (fun a => c < key a) ++ (group key c l ++ older key c l) := by
  induction l with
  | nil => rfl
  | cons a l ih =>
    obtain ⟨ha, hl⟩ := List.pairwise_cons.1 h
    have hrest := ih hl
    rw [group, older] at hrest ⊢
    rcases lt_trichotomy (key a) c with hlt | heq | hgt
    · -- everything behind is below the key too
      have hno : ∀ b ∈ l, key b < c := fun b hb => lt_of_le_of_lt (ha b hb) hlt
      have habove : l.filter (fun a => c < key a) = [] :=
        List.filter_eq_nil_iff.2 fun b hb => by
          simp only [decide_eq_true_eq, not_lt]
          exact le_of_lt (hno b hb)
      have hat : l.filter (fun a => key a = c) = [] :=
        List.filter_eq_nil_iff.2 fun b hb => by
          simp only [decide_eq_true_eq]
          exact ne_of_lt (hno b hb)
      rw [habove, hat, List.nil_append, List.nil_append] at hrest
      rw [List.filter_cons_of_neg (by simp only [decide_eq_true_eq, not_lt]; exact le_of_lt hlt),
        List.filter_cons_of_neg (by simp only [decide_eq_true_eq]; exact ne_of_lt hlt),
        List.filter_cons_of_pos (by simp only [decide_eq_true_eq]; exact hlt), habove, hat,
        List.nil_append, List.nil_append, ← hrest]
    · have habove : l.filter (fun a => c < key a) = [] :=
        List.filter_eq_nil_iff.2 fun b hb => by
          simp only [decide_eq_true_eq, not_lt]
          exact heq ▸ ha b hb
      rw [habove, List.nil_append] at hrest
      rw [List.filter_cons_of_neg (by simp only [decide_eq_true_eq, not_lt]; exact le_of_eq heq),
        List.filter_cons_of_pos (by simp only [decide_eq_true_eq]; exact heq),
        List.filter_cons_of_neg (by simp only [decide_eq_true_eq, not_lt]; exact le_of_eq heq.symm),
        habove, List.nil_append, List.cons_append, ← hrest]
    · rw [List.filter_cons_of_pos (by simp only [decide_eq_true_eq]; exact hgt),
        List.filter_cons_of_neg (by simp only [decide_eq_true_eq]; exact ne_of_gt hgt),
        List.filter_cons_of_neg (by simp only [decide_eq_true_eq, not_lt]; exact le_of_lt hgt),
        List.cons_append, ← hrest]

theorem Descending.filter_take (h : Descending key l) {last : α}
    (hlast : (l.take n).getLast? = some last) :
    (l.take n).filter (fun a => key a ≠ key last) = l.filter fun a => key last < key a := by
  have hcut := List.take_append_drop n l
  have hmem := List.mem_of_getLast? hlast
  have hsplit := h
  rw [← hcut, Descending, List.pairwise_append] at hsplit
  obtain ⟨htake, -, hcross⟩ := hsplit
  have hle : ∀ a ∈ l.take n, key last ≤ key a := by
    obtain ⟨front, hfront⟩ := List.getLast?_eq_some_iff.1 hlast
    rw [hfront] at htake ⊢
    intro a ha
    rcases List.mem_append.1 ha with ha | ha
    · exact (List.pairwise_append.1 htake).2.2 a ha last (List.mem_singleton_self _)
    · rw [List.mem_singleton.1 ha]
  have hdrop : (l.drop n).filter (fun a => key last < key a) = [] :=
    List.filter_eq_nil_iff.2 fun b hb => by
      simp only [decide_eq_true_eq, not_lt]
      exact hcross last hmem b hb
  conv => rhs; rw [← hcut, List.filter_append, hdrop, List.append_nil]
  refine List.filter_congr fun a ha => ?_
  rw [decide_eq_decide]
  exact ⟨fun hne => lt_of_le_of_ne (hle a ha) (Ne.symm hne), fun hlt => ne_of_gt hlt⟩

/-- **A page and what is below its last key are what was left**. -/
theorem page_append_older (h : Descending key l) (hne : l ≠ []) (hn : 0 < n) :
    ∃ last, (page key n l).getLast? = some last ∧ page key n l ++ older key (key last) l = l := by
  obtain ⟨first, rest, rfl⟩ := List.exists_cons_of_ne_nil hne
  have htake : (first :: rest).take n ≠ [] := by
    rw [Ne, List.take_eq_nil_iff, not_or]
    exact ⟨Nat.ne_of_gt hn, List.cons_ne_nil _ _⟩
  obtain ⟨last, hlast⟩ : ∃ last, ((first :: rest).take n).getLast? = some last :=
    ⟨_, List.getLast?_eq_some_getLast htake⟩
  have hmem : last ∈ first :: rest := List.mem_of_mem_take (List.mem_of_getLast? hlast)
  by_cases hfull : ((first :: rest).take n).length = n
  · have hpage : page key n (first :: rest) =
        (first :: rest).filter (fun a => key last < key a) ++
          group key (key last) (first :: rest) := by
      simp only [page, hlast, if_pos hfull, h.filter_take hlast]
    have hgroup : last ∈ group key (key last) (first :: rest) :=
      List.mem_filter.2 ⟨hmem, decide_eq_true rfl⟩
    obtain ⟨end', hend⟩ : ∃ end', (group key (key last) (first :: rest)).getLast? = some end' :=
      ⟨_, List.getLast?_eq_some_getLast (List.ne_nil_of_mem hgroup)⟩
    have hkey : key end' = key last :=
      of_decide_eq_true (List.mem_filter.1 (List.mem_of_getLast? hend)).2
    refine ⟨end', ?_, ?_⟩
    · rw [hpage, List.getLast?_append, hend]
      rfl
    · rw [hpage, hkey, List.append_assoc]
      exact (h.split (key last)).symm
  · have hall : (first :: rest).take n = first :: rest := by
      rw [List.length_take] at hfull
      exact List.take_of_length_le (by omega)
    have hpage : page key n (first :: rest) = first :: rest := by
      simp only [page, hlast, if_neg hfull]
      exact hall
    rw [hall] at hlast
    refine ⟨last, by rw [hpage]; exact hlast, ?_⟩
    have hnone : older key (key last) (first :: rest) = [] := by
      obtain ⟨front, hfront⟩ := List.getLast?_eq_some_iff.1 hlast
      rw [hfront] at h ⊢
      refine List.filter_eq_nil_iff.2 fun a ha => ?_
      simp only [decide_eq_true_eq, not_lt]
      rcases List.mem_append.1 ha with ha | ha
      · exact (List.pairwise_append.1 h).2.2 a ha last (List.mem_singleton_self _)
      · rw [List.mem_singleton.1 ha]
    rw [hpage, hnone, List.append_nil]

theorem page_nil (n : Nat) : page key n ([] : List α) = [] := by
  simp only [page, List.take_nil, List.getLast?_nil]

/-! ## The walk -/

def below (key : α → κ) (l : List α) : Option κ → List α
  | none => l
  | some c => older key c l

/-- The pages of a list, each below the last key of the one before, until one
    is empty; nothing when `fuel` pages are not enough. -/
def walk (key : α → κ) (limits : Nat → Nat) (l : List α) :
    Nat → Nat → Option κ → Option (List (List α))
  | 0, _, _ => none
  | fuel + 1, i, before =>
    let rows := page key (limits i) (below key l before)
    match rows.getLast? with
    | none => some []
    | some last => (walk key limits l fuel (i + 1) (some (key last))).map (rows :: ·)

theorem mem_of_mem_page {a : α} (h : a ∈ page key n l) : a ∈ l := by
  simp only [page] at h
  split at h
  · cases h
  split at h
  · rcases List.mem_append.1 h with h | h
    · exact List.mem_of_mem_take (List.mem_filter.1 h).1
    · exact (List.mem_filter.1 h).1
  · exact List.mem_of_mem_take h

theorem mem_of_mem_below {before : Option κ} {a : α} (h : a ∈ below key l before) : a ∈ l := by
  cases before with
  | none => exact h
  | some c => exact (List.mem_filter.1 h).1

theorem older_below {before : Option κ} {a : α} (ha : a ∈ below key l before) :
    older key (key a) (below key l before) = older key (key a) l := by
  cases before with
  | none => rfl
  | some c =>
    have hlt : key a < c := of_decide_eq_true (List.mem_filter.1 ha).2
    rw [below, older, older, older, List.filter_filter]
    refine List.filter_congr fun b _ => ?_
    rw [Bool.and_eq_left_iff_imp]
    intro hb
    exact decide_eq_true (lt_trans (of_decide_eq_true hb) hlt)

theorem walk_of_nil {before : Option κ} (h : below key l before = []) (fuel i : Nat) :
    walk key limits l (fuel + 1) i before = some [] := by
  simp only [walk, h, page_nil, List.getLast?_nil]

/-- **The pages of a sorted list are the list**, in order, whatever their limits are. -/
theorem walk_flatten (h : Descending key l) (hlimits : ∀ i, 0 < limits i) (n i : Nat)
    (before : Option κ) (hn : (below key l before).length ≤ n) :
    ∃ pages, (∀ fuel, n < fuel → walk key limits l fuel i before = some pages) ∧
      pages.flatten = below key l before := by
  induction n generalizing i before with
  | zero =>
    have hnil := List.eq_nil_of_length_eq_zero (Nat.le_zero.1 hn)
    refine ⟨[], fun fuel hfuel => ?_, hnil.symm⟩
    obtain ⟨fuel, rfl⟩ := Nat.exists_eq_add_of_lt hfuel
    exact walk_of_nil hnil _ i
  | succ n ih =>
    by_cases hne : below key l before = []
    · refine ⟨[], fun fuel hfuel => ?_, hne.symm⟩
      obtain ⟨fuel, rfl⟩ := Nat.exists_eq_add_of_lt hfuel
      exact walk_of_nil hne _ i
    · have hleft : Descending key (below key l before) := by
        cases before with
        | none => exact h
        | some c => exact h.filter _
      obtain ⟨last, hlast, happend⟩ := page_append_older hleft hne (hlimits i)
      have hmem := List.mem_of_getLast? hlast
      have hpage := List.length_pos_iff.2 (List.ne_nil_of_mem hmem)
      have hlen := congrArg List.length happend
      rw [List.length_append] at hlen
      have hrest : below key l (some (key last)) = older key (key last) (below key l before) :=
        (older_below (mem_of_mem_page hmem)).symm
      obtain ⟨pages, hpages, hflat⟩ := ih (i + 1) (some (key last)) (by rw [hrest]; omega)
      refine ⟨page key (limits i) (below key l before) :: pages, fun fuel hfuel => ?_, ?_⟩
      · obtain ⟨m, rfl⟩ := Nat.exists_eq_succ_of_ne_zero (Nat.ne_zero_of_lt hfuel)
        simp only [walk, hlast, hpages m (by omega), Option.map_some]
      · rw [List.flatten_cons, hflat, hrest, happend]

end AgenticGit.Keyset
