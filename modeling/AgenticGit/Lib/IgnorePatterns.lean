import Mathlib.Data.List.Basic
import Mathlib.Data.List.Forall2
import Mathlib.Data.List.Infix
import Mathlib.Tactic.Common

/- Ignore patterns on paths, and what string tests on a path say of its segments.

   A pattern without a slash matches a segment at any depth, and one that starts
   with `**` and a slash the segments behind it at any depth. A pattern that
   matches a directory matches everything beneath it.

   What is proved: a pattern spares a path when its parts match segments of it
   that follow each other (`spares_iff`); a path ends in segments, or goes on
   behind them, as its text says (`ends_iff`, `goesOn_iff`, `endsWith_iff`). -/
namespace AgenticGit.Ignore

abbrev Segment := List Char

/-! ## Patterns -/

/-- Whether a glob matches a segment; `*` is any characters. -/
def glob : List Char → Segment → Bool
  | [], s => s = []
  | c :: p, s =>
    if c = '*' then s.tails.any (glob p) else s.head? = some c && glob p s.tail

theorem glob_literal {p : List Char} (h : '*' ∉ p) (s : Segment) : glob p s = true ↔ s = p := by
  induction p generalizing s with
  | nil => simp only [glob, decide_eq_true_eq]
  | cons c p ih =>
    rw [List.mem_cons, not_or] at h
    rw [glob, if_neg (Ne.symm h.1)]
    cases s with
    | nil => simp
    | cons d s =>
      rw [Bool.and_eq_true, decide_eq_true_eq, List.head?_cons, Option.some_inj, List.tail_cons,
        ih h.2, List.cons.injEq]

theorem glob_star {p : List Char} (h : '*' ∉ p) (s : Segment) :
    glob ('*' :: p) s = true ↔ p <:+ s := by
  rw [glob, if_pos rfl, List.any_eq_true]
  simp only [List.mem_tails, glob_literal h]
  exact ⟨fun ⟨t, ht, heq⟩ => heq ▸ ht, fun hp => ⟨p, hp, rfl⟩⟩

/-- The parts of a pattern that is not anchored. -/
def readPattern (pattern : String) : List (List Char) :=
  match pattern.toList.splitOn '/' with
  | ['*', '*'] :: parts => parts
  | parts => parts

/-- Whether the last segments of a path match the parts. -/
def matchesEnd (parts : List (List Char)) (path : List Segment) : Bool :=
  path.tails.any fun q => decide (List.Forall₂ (fun p s => glob p s = true) parts q)

/-- Whether one of the patterns matches the path or a directory above it. -/
def spares (patterns : List (List (List Char))) (path : List Segment) : Bool :=
  path.inits.any fun q => patterns.any fun parts => matchesEnd parts q

variable {path : List Segment}

/-- **A pattern spares a path when its parts match segments that follow each
    other.** -/
theorem spares_iff {patterns : List (List (List Char))} :
    spares patterns path = true ↔ ∃ parts ∈ patterns, ∃ q, q <:+: path ∧
      List.Forall₂ (fun p s => glob p s = true) parts q := by
  simp only [spares, matchesEnd, List.any_eq_true, List.mem_inits, List.mem_tails,
    decide_eq_true_eq]
  constructor
  · rintro ⟨init, hinit, parts, hparts, q, hq, hmatch⟩
    exact ⟨parts, hparts, q, hq.isInfix.trans hinit.isInfix, hmatch⟩
  · rintro ⟨parts, hparts, q, ⟨s, t, hst⟩, hmatch⟩
    exact ⟨s ++ q, ⟨t, hst⟩, parts, hparts, q, List.suffix_append s q, hmatch⟩

theorem forall₂_single {p : List Char} :
    (∃ q, q <:+: path ∧ List.Forall₂ (fun p s => glob p s = true) [p] q) ↔
      ∃ s ∈ path, glob p s = true := by
  constructor
  · rintro ⟨q, hq, hmatch⟩
    cases hmatch with
    | cons hhead htail =>
      cases htail
      exact ⟨_, hq.subset List.mem_cons_self, hhead⟩
  · rintro ⟨s, hs, hmatch⟩
    exact ⟨[s], List.infix_iff_prefix_suffix.2 (by
      obtain ⟨front, back, rfl⟩ := List.append_of_mem hs
      exact ⟨s :: back, ⟨back, rfl⟩, ⟨front, rfl⟩⟩), .cons hmatch .nil⟩

theorem forall₂_pair {a b : List Char} (ha : '*' ∉ a) (hb : '*' ∉ b) :
    (∃ q, q <:+: path ∧ List.Forall₂ (fun p s => glob p s = true) [a, b] q) ↔
      [a, b] <:+: path := by
  constructor
  · rintro ⟨q, hq, hmatch⟩
    cases hmatch with
    | cons hhead htail =>
      cases htail with
      | cons hnext hnil =>
        cases hnil
        rwa [(glob_literal ha _).1 hhead, (glob_literal hb _).1 hnext] at hq
  · intro h
    exact ⟨[a, b], h, .cons ((glob_literal ha _).2 rfl) (.cons ((glob_literal hb _).2 rfl) .nil)⟩

/-! ## The text of a path -/

/-- The segments of a path, each behind a slash. -/
def slashed (path : List Segment) : List Char := path.flatMap fun s => '/' :: s

theorem slashed_cons (s : Segment) (path : List Segment) :
    slashed (s :: path) = '/' :: (s ++ slashed path) := rfl

theorem slashed_splitOn (text : List Char) : slashed (text.splitOn '/') = '/' :: text := by
  have hjoin := @List.intercalate_splitOn _ text _ _ '/'
  have hcons : ∀ path : List Segment, path ≠ [] →
      slashed path = '/' :: ['/'].intercalate path := by
    intro path hne
    induction path with
    | nil => exact absurd rfl hne
    | cons s path ih =>
      cases path with
      | nil => simp [slashed, List.intercalate]
      | cons t path =>
        rw [slashed_cons, ih (List.cons_ne_nil _ _)]
        simp [List.intercalate]
  rw [hcons _ (List.splitOn_ne_nil _ _), hjoin]

theorem slashed_eq_nil : slashed path = [] ↔ path = [] := by
  cases path with
  | nil => simp [slashed]
  | cons s path => simp [slashed_cons]

theorem stops_inj {x y : Segment} {r r' : List Char} (hx : '/' ∉ x) (hy : '/' ∉ y)
    (hr : r.head? = some '/') (hr' : r' = [] ∨ r'.head? = some '/')
    (h : x ++ r <+: y ++ r') : x = y ∧ r <+: r' := by
  induction x generalizing y with
  | nil =>
    cases y with
    | nil => exact ⟨rfl, h⟩
    | cons d y =>
      exfalso
      cases r with
      | nil => cases hr
      | cons c r =>
        obtain ⟨t, ht⟩ := h
        rw [List.nil_append, List.cons_append, List.cons_append, List.cons.injEq] at ht
        rw [List.head?_cons, Option.some_inj] at hr
        exact hy (hr ▸ ht.1 ▸ List.mem_cons_self)
  | cons c x ih =>
    rw [List.mem_cons, not_or] at hx
    cases y with
    | nil =>
      exfalso
      obtain ⟨t, ht⟩ := h
      rcases hr' with rfl | hr'
      · cases ht
      · rw [List.nil_append] at ht
        rw [← ht, List.cons_append, List.cons_append, List.head?_cons, Option.some_inj] at hr'
        exact hx.1 hr'.symm
    | cons d y =>
      rw [List.mem_cons, not_or] at hy
      rw [List.cons_append, List.cons_append, List.cons_prefix_cons] at h
      obtain ⟨rfl, hrest⟩ := ih hx.2 hy.2 h.2
      exact ⟨by rw [h.1], hrest⟩

theorem slashed_head : slashed path = [] ∨ (slashed path).head? = some '/' := by
  cases path with
  | nil => exact .inl rfl
  | cons s path => exact .inr rfl

theorem slashed_append (path rest : List Segment) :
    slashed (path ++ rest) = slashed path ++ slashed rest := List.flatMap_append

theorem startsWith_iff {xs path : List Segment} (hxs : ∀ s ∈ xs, '/' ∉ s)
    (hpath : ∀ s ∈ path, '/' ∉ s) :
    slashed xs ++ ['/'] <+: slashed path ↔ ∃ rest, rest ≠ [] ∧ path = xs ++ rest := by
  induction xs generalizing path with
  | nil =>
    cases path with
    | nil => simp [slashed]
    | cons s path => simp [slashed]
  | cons x xs ih =>
    cases path with
    | nil => simp [slashed]
    | cons y path =>
      rw [slashed_cons, slashed_cons, List.cons_append, List.cons_prefix_cons,
        List.append_assoc]
      have hstop : (slashed xs ++ ['/']).head? = some '/' := by
        cases xs with
        | nil => rfl
        | cons z xs => rfl
      have hx := hxs x List.mem_cons_self
      have hy := hpath y List.mem_cons_self
      have ih' := ih (fun s hs => hxs s (List.mem_cons_of_mem _ hs))
        (fun s hs => hpath s (List.mem_cons_of_mem _ hs))
      constructor
      · rintro ⟨-, h⟩
        obtain ⟨rfl, hrest⟩ := stops_inj hx hy hstop slashed_head h
        obtain ⟨rest, hne, rfl⟩ := ih'.1 hrest
        exact ⟨rest, hne, rfl⟩
      · rintro ⟨rest, hne, heq⟩
        obtain ⟨rfl, rfl⟩ := List.cons.inj heq
        exact ⟨rfl, (List.prefix_append_right_inj y).2 (ih'.2 ⟨rest, hne, rfl⟩)⟩

theorem infix_segment {l : List Char} {y : Segment} {rest : List Char} (hl : l.head? = some '/')
    (hy : '/' ∉ y) : l <:+: y ++ rest ↔ l <:+: rest := by
  refine ⟨fun h => ?_, fun h => h.trans (List.suffix_append y rest).isInfix⟩
  induction y with
  | nil => exact h
  | cons c y ih =>
    rw [List.mem_cons, not_or] at hy
    rw [List.cons_append, List.infix_cons_iff] at h
    refine ih hy.2 (h.resolve_left fun hstart => ?_)
    cases l with
    | nil => cases hl
    | cons d l =>
      rw [List.head?_cons, Option.some_inj] at hl
      exact hy.1 (hl ▸ (List.cons_prefix_cons.1 hstart).1)

/-- **A path goes on behind segments of it as its text does.** -/
theorem goesOn_iff {xs path : List Segment} (hne : xs ≠ []) (hxs : ∀ s ∈ xs, '/' ∉ s)
    (hpath : ∀ s ∈ path, '/' ∉ s) :
    slashed xs ++ ['/'] <:+: slashed path ↔
      ∃ front rest, rest ≠ [] ∧ path = front ++ (xs ++ rest) := by
  have hhead : (slashed xs ++ ['/']).head? = some '/' := by
    obtain ⟨x, xs, rfl⟩ := List.exists_cons_of_ne_nil hne
    rfl
  induction path with
  | nil =>
    refine ⟨fun h => ?_, fun ⟨front, rest, hrest, h⟩ => ?_⟩
    · exact absurd (List.infix_nil.1 h) (by simp)
    · exact absurd (List.append_eq_nil_iff.1 (List.append_eq_nil_iff.1 h.symm).2).2 hrest
  | cons y path ih =>
    have hy := hpath y List.mem_cons_self
    have hrest : ∀ s ∈ path, '/' ∉ s := fun s hs => hpath s (List.mem_cons_of_mem _ hs)
    rw [slashed_cons, List.infix_cons_iff, ← slashed_cons, startsWith_iff hxs hpath,
      infix_segment hhead hy, show _ ↔ _ from ih hrest]
    constructor
    · rintro (⟨rest, hne', h⟩ | ⟨front, rest, hne', rfl⟩)
      · exact ⟨[], rest, hne', h⟩
      · exact ⟨y :: front, rest, hne', rfl⟩
    · rintro ⟨front, rest, hne', h⟩
      cases front with
      | nil => exact .inl ⟨rest, hne', h⟩
      | cons z front =>
        obtain ⟨-, rfl⟩ := List.cons.inj h
        exact .inr ⟨front, rest, hne', rfl⟩

theorem suffix_segment {l : List Char} {y : Segment} {rest : List Char} (hl : l.head? = some '/')
    (hy : '/' ∉ y) : l <:+ y ++ rest ↔ l <:+ rest := by
  refine ⟨fun h => ?_, fun h => h.trans (List.suffix_append y rest)⟩
  induction y with
  | nil => exact h
  | cons c y ih =>
    rw [List.mem_cons, not_or] at hy
    rw [List.cons_append, List.suffix_cons_iff] at h
    refine ih hy.2 (h.resolve_left fun hwhole => ?_)
    rw [hwhole, List.head?_cons, Option.some_inj] at hl
    exact hy.1 hl.symm

theorem slashed_inj {xs ys : List Segment} (hxs : ∀ s ∈ xs, '/' ∉ s) (hys : ∀ s ∈ ys, '/' ∉ s)
    (h : slashed xs = slashed ys) : xs = ys := by
  have hmark : slashed xs ++ ['/'] <+: slashed (ys ++ [[]]) := by
    rw [slashed_append, h]
    exact List.prefix_refl _
  obtain ⟨rest, hne, heq⟩ := (startsWith_iff hxs fun s hs => by
    rcases List.mem_append.1 hs with hs | hs
    · exact hys s hs
    · rw [List.mem_singleton.1 hs]; exact List.not_mem_nil).1 hmark
  -- one segment is left behind `xs`, or the texts would differ in length
  have hslashed := congrArg slashed heq
  rw [slashed_append, slashed_append, ← h, List.append_cancel_left_eq] at hslashed
  have hone : rest = [[]] := by
    cases rest with
    | nil => exact absurd rfl hne
    | cons s rest =>
      rw [slashed_cons] at hslashed
      have htail := (List.cons.inj hslashed).2
      have hnil := List.append_eq_nil_iff.1 htail.symm
      rw [hnil.1, slashed_eq_nil.1 hnil.2]
  rw [hone, List.append_cancel_right_eq] at heq
  exact heq.symm

/-- **A path ends in segments as its text does.** -/
theorem ends_iff {xs path : List Segment} (hne : xs ≠ []) (hxs : ∀ s ∈ xs, '/' ∉ s)
    (hpath : ∀ s ∈ path, '/' ∉ s) : slashed xs <:+ slashed path ↔ xs <:+ path := by
  have hhead : (slashed xs).head? = some '/' := by
    obtain ⟨x, xs, rfl⟩ := List.exists_cons_of_ne_nil hne
    rfl
  induction path with
  | nil =>
    refine ⟨fun h => ?_, fun h => absurd (List.suffix_nil.1 h) hne⟩
    exact absurd (slashed_eq_nil.1 (List.suffix_nil.1 h)) hne
  | cons y path ih =>
    have hy := hpath y List.mem_cons_self
    have hrest : ∀ s ∈ path, '/' ∉ s := fun s hs => hpath s (List.mem_cons_of_mem _ hs)
    rw [slashed_cons, List.suffix_cons_iff, suffix_segment hhead hy, show _ ↔ _ from ih hrest,
      List.suffix_cons_iff, ← slashed_cons]
    exact or_congr_left ⟨slashed_inj hxs hpath, fun h => by rw [h]⟩

/-- **The last segment ends as the text does**, when the ending has no slash. -/
theorem endsWith_iff {ending : List Char} {front : List Segment} {last : Segment}
    (hending : '/' ∉ ending) : ending <:+ slashed (front ++ [last]) ↔ ending <:+ last := by
  have htext : slashed (front ++ [last]) = slashed front ++ '/' :: last := by
    rw [slashed_append, slashed_cons]
    simp [slashed]
  have hlast : '/' :: last <:+ slashed (front ++ [last]) := htext ▸ List.suffix_append _ _
  refine ⟨fun h => ?_, fun h => (h.trans (List.suffix_cons '/' last)).trans hlast⟩
  rcases List.suffix_or_suffix_of_suffix h hlast with h | h
  · exact (List.suffix_cons_iff.1 h).resolve_left fun heq => hending (heq ▸ List.mem_cons_self)
  · exact absurd (h.subset List.mem_cons_self) hending

end AgenticGit.Ignore
