import Mathlib.Data.List.Count
import AgenticGit.Lib.NormalScript

/- Places between the elements of a list, carried through edit scripts.

   A place is a number of elements in front of it. `caret` moves it with one script:
   what is put in at the place goes in front of it. A script that only says where the
   elements went (`ahead`) gives another answer where something was put in behind the
   place and everything between the two was dropped later.

   What is proved:
     1. `caret_mono`, `caret_le` — places stay in order and inside the list.
     2. `mark_front` — after a script at a time the place is behind the elements
        marked `front`.
     3. `caret_eq_ahead`, `ahead_eq_findIdx` — after one normal script it is in front
        of the first element left of those it was in front of.
     4. `eq_tidy` — the normal script of an effect is the one `tidy` makes of any of
        that effect, so what `tidy` keeps may be read off either.
     5. `transform_dropped` — a script carried over another still drops what the other
        left of what it dropped, and puts in what it put in. -/
namespace AgenticGit.EditScript

universe u v

variable {α : Type u} {β : Type v}

/-- Where the place behind `p` elements goes. -/
def caret : Script α → Nat → Nat
  | [], p => p
  | .put _ :: as, p => caret as p + 1
  | .keep :: _, 0 => 0
  | .keep :: as, p + 1 => caret as p + 1
  | .drop :: _, 0 => 0
  | .drop :: as, p + 1 => caret as p

/-! ## One script -/

theorem caret_mono (as : Script α) {p q : Nat} (h : p ≤ q) : caret as p ≤ caret as q := by
  induction as generalizing p q with
  | nil => exact h
  | cons a as ih =>
    cases a with
    | put c => exact Nat.succ_le_succ (ih h)
    | keep =>
      cases p with
      | zero => exact Nat.zero_le _
      | succ p =>
        obtain ⟨q, rfl⟩ : ∃ k, q = k + 1 := ⟨q - 1, by omega⟩
        exact Nat.succ_le_succ (ih (Nat.le_of_succ_le_succ h))
    | drop =>
      cases p with
      | zero => exact Nat.zero_le _
      | succ p =>
        obtain ⟨q, rfl⟩ : ∃ k, q = k + 1 := ⟨q - 1, by omega⟩
        exact ih (Nat.le_of_succ_le_succ h)

theorem caret_le {as : Script α} {p : Nat} (h : p ≤ baseLen as) : caret as p ≤ targetLen as := by
  induction as generalizing p with
  | nil => exact h
  | cons a as ih =>
    cases a with
    | put c => exact Nat.succ_le_succ (ih h)
    | keep =>
      cases p with
      | zero => exact Nat.zero_le _
      | succ p => exact Nat.succ_le_succ (ih (Nat.le_of_succ_le_succ h))
    | drop =>
      cases p with
      | zero => exact Nat.zero_le _
      | succ p => exact ih (Nat.le_of_succ_le_succ h)

theorem caret_puts (s : List α) (as : Script α) (p : Nat) :
    caret (puts s ++ as) p = caret as p + s.length := by
  induction s with
  | nil => rfl
  | cons c s ih =>
    rw [puts_cons, List.cons_append, caret, ih]
    rfl

theorem caret_keeps (n : Nat) (as : Script α) (p : Nat) :
    caret (keeps n ++ as) p = if p < n then p else n + caret as (p - n) := by
  induction n generalizing p with
  | zero => simp
  | succ n ih =>
    rw [keeps_succ, List.cons_append]
    cases p with
    | zero => simp [caret]
    | succ p =>
      rw [caret, ih]
      simp only [Nat.add_lt_add_iff_right, Nat.add_sub_add_right]
      split <;> omega

theorem caret_drops (n : Nat) (as : Script α) (p : Nat) :
    caret (drops n ++ as) p = if p < n then 0 else caret as (p - n) := by
  induction n generalizing p with
  | zero => simp
  | succ n ih =>
    rw [drops_succ, List.cons_append]
    cases p with
    | zero => simp [caret]
    | succ p =>
      rw [caret, ih]
      simp only [Nat.add_lt_add_iff_right, Nat.add_sub_add_right]

/-! ## The same script over other elements -/

/-- The atom that reads as this one does and puts `b` in. -/
def Atom.blank (b : β) : Atom α → Atom β
  | .keep => .keep
  | .drop => .drop
  | .put _ => .put b

/-- The script that reads as this one does and puts `b` in wherever this one puts
something in. -/
def blank (b : β) (as : Script α) : Script β := as.map (Atom.blank b)

@[simp] theorem blank_nil (b : β) : blank b ([] : Script α) = [] := rfl

@[simp] theorem blank_cons (b : β) (a : Atom α) (as : Script α) :
    blank b (a :: as) = a.blank b :: blank b as := rfl

@[simp] theorem baseLen_blank (b : β) (as : Script α) : baseLen (blank b as) = baseLen as := by
  induction as with
  | nil => rfl
  | cons a as ih => cases a <;> simp [Atom.blank, baseLen, ih]

theorem blank_keeps (b : β) (n : Nat) : blank b (keeps n : Script α) = keeps n := by
  rw [blank, keeps, List.map_replicate]
  rfl

@[simp] theorem targetLen_blank (b : β) (as : Script α) :
    targetLen (blank b as) = targetLen as := by
  induction as with
  | nil => rfl
  | cons a as ih => cases a <;> simp [Atom.blank, targetLen, ih]

theorem blank_compose (b : β) {as bs cs : Script α} (h : compose as bs = some cs) :
    compose (blank b as) (blank b bs) = some (blank b cs) := by
  fun_induction compose as bs generalizing cs with
  | case1 as bs ih =>
    obtain ⟨ds, hds, rfl⟩ := Option.map_eq_some_iff.mp h
    simp [Atom.blank, compose, ih hds]
  | case2 as c bs has ih =>
    obtain ⟨ds, hds, rfl⟩ := Option.map_eq_some_iff.mp h
    have hne : ∀ rest, blank b as ≠ .drop :: rest := by
      intro rest he
      cases as with
      | nil => cases he
      | cons a as => cases a <;> first | exact has _ rfl | cases he
    simp [Atom.blank, compose.eq_2 _ _ _ hne, ih hds]
  | case3 as bs ih | case4 as bs ih | case5 c as bs ih =>
    obtain ⟨ds, hds, rfl⟩ := Option.map_eq_some_iff.mp h
    simp [Atom.blank, compose, ih hds]
  | case6 c as bs ih => simp [Atom.blank, compose, ih h]
  | case7 =>
    obtain rfl : [] = cs := by simpa using h
    simp [compose]
  | case8 => simp at h

/-! ## The first element left behind a place -/

/-- How many elements come in front of the first one left of those behind `p`. -/
def ahead : Script α → Nat → Nat
  | [], p => p
  | .put _ :: as, p => ahead as p + 1
  | .keep :: _, 0 => 0
  | .keep :: as, p + 1 => ahead as p + 1
  | .drop :: as, 0 => ahead as 0
  | .drop :: as, p + 1 => ahead as p

theorem ahead_drop {as : Script α} (h : Normal (.drop :: as)) : ahead as 0 = 0 := by
  induction as with
  | nil => rfl
  | cons a as ih =>
    cases a with
    | keep => rfl
    | drop => exact ih h.tail
    | put c => exact absurd rfl ((List.isChain_cons_cons.mp h).1 rfl c)

/-- **In a normal script nothing is put in between the two.** -/
theorem caret_eq_ahead {as : Script α} (h : Normal as) (p : Nat) : caret as p = ahead as p := by
  induction as generalizing p with
  | nil => rfl
  | cons a as ih =>
    cases a with
    | put c => rw [caret, ahead, ih h.tail]
    | keep =>
      cases p with
      | zero => rfl
      | succ p => rw [caret, ahead, ih h.tail]
    | drop =>
      cases p with
      | zero => rw [caret, ahead, ahead_drop h]
      | succ p => rw [caret, ahead, ih h.tail]

theorem ahead_eq_findIdx {as : Script α} {p q : Nat} {flags : List Bool}
    (hbase : baseLen as = p + q)
    (h : act (blank false as) (List.replicate p false ++ List.replicate q true) = some flags) :
    ahead as p = flags.findIdx id := by
  induction as generalizing p q flags with
  | nil =>
    obtain ⟨rfl, rfl⟩ : p = 0 ∧ q = 0 := by simpa [baseLen] using hbase.symm
    obtain rfl : [] = flags := by simpa [act] using h
    rfl
  | cons a as ih =>
    cases a with
    | put c =>
      obtain ⟨rest, hrest, rfl⟩ := Option.map_eq_some_iff.mp h
      rw [ahead, ih hbase hrest, List.findIdx_cons]
      rfl
    | keep =>
      cases p with
      | zero =>
        obtain ⟨q, rfl⟩ : ∃ k, q = k + 1 := ⟨q - 1, by simp [baseLen] at hbase; omega⟩
        obtain ⟨rest, hrest, rfl⟩ := Option.map_eq_some_iff.mp h
        rfl
      | succ p =>
        obtain ⟨rest, hrest, rfl⟩ := Option.map_eq_some_iff.mp h
        rw [ahead, ih (by simp [baseLen] at hbase; omega) hrest, List.findIdx_cons]
        rfl
    | drop =>
      cases p with
      | zero =>
        obtain ⟨q, rfl⟩ : ∃ k, q = k + 1 := ⟨q - 1, by simp [baseLen] at hbase; omega⟩
        exact @ih 0 q flags (by simp [baseLen] at hbase; omega) h
      | succ p => exact ih (by simp [baseLen] at hbase; omega) h

/-! ## Marks -/

/-- What an element is to a place: in front of it, behind it from the start, or put in
behind it. -/
inductive Mark where
  | front | own | typed
  deriving DecidableEq, Repr

/-- Marks carried through a script. What is put in is in front of the place unless some
element read so far is behind it. -/
def mark : Script α → List Mark → Bool → List Mark
  | .put _ :: as, marks, seen => (if seen then .typed else .front) :: mark as marks seen
  | .keep :: as, m :: marks, seen => m :: mark as marks (seen || m != .front)
  | .drop :: as, m :: marks, seen => mark as marks (seen || m != .front)
  | _, _, _ => []

/-- The marks of a list of `n` elements about the place behind `p` of them. -/
def placed (p n : Nat) : List Mark := List.replicate p .front ++ List.replicate (n - p) .own

theorem mark_seen {as : Script α} {marks : List Mark} (h : Mark.front ∉ marks) :
    Mark.front ∉ mark as marks true := by
  induction as generalizing marks with
  | nil => simp [mark]
  | cons a as ih =>
    cases a with
    | put c => simpa [mark] using ih h
    | keep =>
      cases marks with
      | nil => simp [mark]
      | cons m marks =>
        rw [List.mem_cons, not_or] at h
        simpa [mark] using ⟨h.1, ih h.2⟩
    | drop =>
      cases marks with
      | nil => simp [mark]
      | cons m marks =>
        rw [List.mem_cons, not_or] at h
        simpa [mark] using ih h.2

/-- **The place moves with the marks in front of it.** -/
theorem mark_front (as : Script α) (p : Nat) {rest : List Mark} (h : Mark.front ∉ rest)
    (hbase : baseLen as = p + rest.length) :
    ∃ rest', mark as (List.replicate p .front ++ rest) false =
      List.replicate (caret as p) .front ++ rest' ∧ Mark.front ∉ rest' := by
  induction as generalizing p rest with
  | nil =>
    obtain rfl : p = 0 := by simp [baseLen] at hbase; omega
    exact ⟨[], by simp [mark, caret], List.not_mem_nil⟩
  | cons a as ih =>
    cases a with
    | put c =>
      obtain ⟨rest', he, hf⟩ := ih p h hbase
      exact ⟨rest', by rw [mark, he]; rfl, hf⟩
    | keep =>
      cases p with
      | zero =>
        cases rest with
        | nil => simp [baseLen] at hbase
        | cons m rest =>
          rw [List.mem_cons, not_or] at h
          have hm : (m != .front) = true := by simpa using Ne.symm h.1
          refine ⟨m :: mark as rest true, ?_, ?_⟩
          · simp only [List.replicate_zero, List.nil_append, mark, caret, hm, Bool.or_true]
          · rw [List.mem_cons, not_or]
            exact ⟨h.1, mark_seen h.2⟩
      | succ p =>
        obtain ⟨rest', he, hf⟩ := ih p h (by simp [baseLen] at hbase; omega)
        exact ⟨rest', congrArg (Mark.front :: ·) he, hf⟩
    | drop =>
      cases p with
      | zero =>
        cases rest with
        | nil => simp [baseLen] at hbase
        | cons m rest =>
          rw [List.mem_cons, not_or] at h
          have hm : (m != .front) = true := by simpa using Ne.symm h.1
          refine ⟨mark as rest true, ?_, mark_seen h.2⟩
          simp only [List.replicate_zero, List.nil_append, mark, caret, hm, Bool.or_true]
      | succ p => exact ih p h (by simp [baseLen] at hbase; omega)

/-- An element that was behind the place from the start. -/
def Mark.isOwn (m : Mark) : Bool := m == .own

theorem mark_own {as : Script α} {marks : List Mark} (seen : Bool)
    (hbase : baseLen as = marks.length) :
    act (blank false as) (marks.map Mark.isOwn) = some ((mark as marks seen).map Mark.isOwn) := by
  induction as generalizing marks seen with
  | nil =>
    obtain rfl : marks = [] := List.eq_nil_of_length_eq_zero hbase.symm
    rfl
  | cons a as ih =>
    cases a with
    | put c =>
      rw [blank_cons, Atom.blank, act, ih seen hbase, mark]
      cases seen <;> rfl
    | keep =>
      cases marks with
      | nil => simp [baseLen] at hbase
      | cons m marks =>
        rw [blank_cons, Atom.blank, List.map_cons, act, ih (seen || m != .front)
          (by simpa [baseLen] using hbase), mark]
        rfl
    | drop =>
      cases marks with
      | nil => simp [baseLen] at hbase
      | cons m marks =>
        rw [blank_cons, Atom.blank, List.map_cons, act, ih (seen || m != .front)
          (by simpa [baseLen] using hbase), mark]

theorem length_mark {as : Script α} {marks : List Mark} (seen : Bool)
    (h : baseLen as = marks.length) : (mark as marks seen).length = targetLen as := by
  have hlength := act_length (mark_own seen h)
  rwa [List.length_map, targetLen_blank] at hlength

theorem findIdx_replicate_front (n : Nat) {rest : List Mark} (h : Mark.front ∉ rest) :
    (List.replicate n Mark.front ++ rest).findIdx (· != .front) = n := by
  induction n with
  | zero =>
    cases rest with
    | nil => rfl
    | cons m rest =>
      rw [List.mem_cons, not_or] at h
      rw [List.replicate_zero, List.nil_append, List.findIdx_cons,
        show (m != .front) = true by simpa using Ne.symm h.1]
      rfl
  | succ n ih =>
    rw [List.replicate_succ, List.cons_append, List.findIdx_cons, ih]
    rfl

theorem findIdx_eq_iff (marks : List Mark) :
    marks.findIdx Mark.isOwn = marks.findIdx (· != .front) ↔
      marks.find? (· != .front) ≠ some .typed := by
  induction marks with
  | nil => simp
  | cons m marks ih =>
    cases m with
    | front =>
      have hown : Mark.isOwn .front = false := rfl
      have hfront : (Mark.front != .front) = false := rfl
      simp only [List.findIdx_cons, List.find?_cons, hown, hfront, cond_false,
        Nat.add_right_cancel_iff, ih]
    | own =>
      have hown : Mark.isOwn .own = true := rfl
      have hfront : (Mark.own != .front) = true := rfl
      simp [List.findIdx_cons, hown, hfront]
    | typed =>
      have hown : Mark.isOwn .typed = false := rfl
      have hfront : (Mark.typed != .front) = true := rfl
      simp [List.findIdx_cons, hown, hfront]

/-! ## The normal form of a script -/

def sink : Script α → Script α
  | .put c :: as => .put c :: sink as
  | as => .drop :: as

/-- Every drop behind what is put in right after it. -/
def tidy : Script α → Script α
  | [] => []
  | .keep :: as => .keep :: tidy as
  | .put c :: as => .put c :: tidy as
  | .drop :: as => sink (tidy as)

theorem sink_effect (as : Script α) : SameEffect (sink as) (.drop :: as) := by
  induction as with
  | nil => rfl
  | cons a as ih =>
    cases a with
    | put c =>
      have hput : SameEffect (.put c :: sink as) (.put c :: .drop :: as) :=
        (SameEffect.refl [.put c]).append ih
      exact hput.trans ((sameEffect_swap 1 [c]).symm.append (.refl as))
    | keep | drop => rfl

theorem tidy_effect (as : Script α) : SameEffect (tidy as) as := by
  induction as with
  | nil => rfl
  | cons a as ih =>
    cases a with
    | put c => exact (SameEffect.refl [.put c]).append ih
    | keep => exact (SameEffect.refl [.keep]).append ih
    | drop => exact (sink_effect _).trans ((SameEffect.refl [.drop]).append ih)

theorem sink_normal {as : Script α} (h : Normal as) : Normal (sink as) := by
  induction as with
  | nil => exact List.isChain_singleton _
  | cons a as ih =>
    cases a with
    | put c =>
      have hsink := ih h.tail
      rw [sink]
      cases hs : sink as with
      | nil => exact List.isChain_singleton _
      | cons b bs => exact List.isChain_cons_cons.mpr ⟨(fun h => by cases h), hs ▸ hsink⟩
    | keep => exact List.isChain_cons_cons.mpr ⟨(fun _ c hc => by cases hc), h⟩
    | drop => exact List.isChain_cons_cons.mpr ⟨(fun _ c hc => by cases hc), h⟩

theorem tidy_normal (as : Script α) : Normal (tidy as) := by
  induction as with
  | nil => exact List.isChain_nil
  | cons a as ih =>
    cases a with
    | put c | keep =>
      rw [tidy]
      cases ht : tidy as with
      | nil => exact List.isChain_singleton _
      | cons b bs => exact List.isChain_cons_cons.mpr ⟨(fun h => by cases h), ht ▸ ih⟩
    | drop => exact sink_normal ih

/-- **The normal script of an effect.** -/
theorem eq_tidy [Nontrivial α] {as bs : Script α} (h : Normal as) (he : SameEffect as bs) :
    as = tidy bs :=
  normal_unique h (tidy_normal bs) (he.trans (tidy_effect bs).symm)

theorem blank_sink (b : β) (as : Script α) : blank b (sink as) = sink (blank b as) := by
  induction as with
  | nil => rfl
  | cons a as ih =>
    cases a with
    | put c => simp only [sink, blank_cons, Atom.blank, ih]
    | keep | drop => rfl

theorem blank_tidy (b : β) (as : Script α) : blank b (tidy as) = tidy (blank b as) := by
  induction as with
  | nil => rfl
  | cons a as ih =>
    cases a with
    | put c | keep => simp only [tidy, blank_cons, Atom.blank, ih]
    | drop => simp only [tidy, blank_cons, Atom.blank, blank_sink, ih]

theorem act_blank_eq [Nontrivial α] (b : β) {as bs : Script α} (h : Normal as)
    (he : SameEffect as bs) (s : List β) : act (blank b as) s = act (blank b bs) s := by
  rw [eq_tidy h he, blank_tidy]
  exact (tidy_effect _).act s

/-! ## What a script drops and puts in -/

/-- Whether each element a script reads is dropped. -/
def dropped : Script α → List Bool
  | [] => []
  | .put _ :: as => dropped as
  | .keep :: as => false :: dropped as
  | .drop :: as => true :: dropped as

def inserted : Script α → Nat
  | [] => 0
  | .put _ :: as => inserted as + 1
  | .keep :: as => inserted as
  | .drop :: as => inserted as

theorem dropped_keeps (n : Nat) : dropped (keeps n : Script α) = List.replicate n false := by
  induction n with
  | zero => rfl
  | succ n ih => rw [keeps_succ, dropped, ih, List.replicate_succ]

theorem inserted_keeps (n : Nat) : inserted (keeps n : Script α) = 0 := by
  induction n with
  | zero => rfl
  | succ n ih => exact ih

theorem targetLen_add_dropped (as : Script α) :
    targetLen as + (dropped as).count true = baseLen as + inserted as := by
  induction as with
  | nil => rfl
  | cons a as ih => cases a <;> simp [dropped, inserted, targetLen, baseLen] <;> omega

theorem sink_counts (as : Script α) :
    dropped (sink as) = true :: dropped as ∧ inserted (sink as) = inserted as := by
  induction as with
  | nil => exact ⟨rfl, rfl⟩
  | cons a as ih =>
    cases a with
    | put c => exact ⟨ih.1, congrArg (· + 1) ih.2⟩
    | keep | drop => exact ⟨rfl, rfl⟩

theorem tidy_counts (as : Script α) :
    dropped (tidy as) = dropped as ∧ inserted (tidy as) = inserted as := by
  induction as with
  | nil => exact ⟨rfl, rfl⟩
  | cons a as ih =>
    cases a with
    | put c => exact ⟨ih.1, congrArg (· + 1) ih.2⟩
    | keep => exact ⟨congrArg (false :: ·) ih.1, ih.2⟩
    | drop =>
      obtain ⟨hd, hi⟩ := sink_counts (tidy as)
      exact ⟨hd.trans (congrArg (true :: ·) ih.1), hi.trans ih.2⟩

/-- **What is left to drop.** A script carried over another puts in what it put in, and
drops what the other left of what it dropped. -/
theorem transform_dropped {as bs : Script α} {p : Script α × Script α}
    (h : transform as bs = some p) :
    act (blank false bs) (dropped as) = some (dropped p.1) ∧ inserted p.1 = inserted as := by
  fun_induction transform as bs generalizing p with
  | case1 c as bs ih =>
    obtain ⟨q, hq, rfl⟩ := Option.map_eq_some_iff.mp h
    exact ⟨(ih hq).1, congrArg (· + 1) (ih hq).2⟩
  | case2 as c bs _ ih =>
    obtain ⟨q, hq, rfl⟩ := Option.map_eq_some_iff.mp h
    obtain ⟨hd, hi⟩ := ih hq
    refine ⟨?_, hi⟩
    rw [blank_cons, Atom.blank, act, hd]
    rfl
  | case3 as bs ih =>
    obtain ⟨q, hq, rfl⟩ := Option.map_eq_some_iff.mp h
    obtain ⟨hd, hi⟩ := ih hq
    refine ⟨?_, hi⟩
    rw [blank_cons, Atom.blank, dropped, act, hd]
    rfl
  | case4 as bs ih =>
    obtain ⟨hd, hi⟩ := ih h
    exact ⟨hd, hi⟩
  | case5 as bs ih =>
    obtain ⟨q, hq, rfl⟩ := Option.map_eq_some_iff.mp h
    obtain ⟨hd, hi⟩ := ih hq
    refine ⟨?_, hi⟩
    rw [blank_cons, Atom.blank, dropped, act, hd]
    rfl
  | case6 as bs ih =>
    obtain ⟨q, hq, rfl⟩ := Option.map_eq_some_iff.mp h
    obtain ⟨hd, hi⟩ := ih hq
    exact ⟨hd, hi⟩
  | case7 =>
    obtain rfl : ([], []) = p := by simpa using h
    exact ⟨rfl, rfl⟩
  | case8 => simp at h

end AgenticGit.EditScript
