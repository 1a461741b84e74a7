import Mathlib.Data.List.Chain
import Mathlib.Logic.Nontrivial.Basic
import AgenticGit.Lib.EditScript

/- The normal form of an edit script: what it puts in at a place comes before what
   it drops there.

   What is proved:
     1. `normal_unique` — over an alphabet of two elements or more, two normal
        scripts of one effect are the same script.
     2. `append_run_inj` — a list is split in one way into a run of one kind and a
        rest that does not begin with that kind.
     3. `transform_append` — scripts split at one place are carried over each other a
        part at a time. -/
namespace AgenticGit.EditScript

universe u

variable {α : Type u}

/-- Nothing is put in right after something is dropped. -/
def Normal (as : Script α) : Prop :=
  as.IsChain fun a b => a = .drop → ∀ c, b ≠ .put c

theorem Normal.tail {a : Atom α} {as : Script α} (h : Normal (a :: as)) : Normal as :=
  List.IsChain.tail h

theorem act_sameEffect {as bs : Script α} (h : SameEffect as bs) {s t : List α}
    (hs : act as s = some t) : act bs s = some t :=
  (h.act s).symm.trans hs

section Unique
variable [Nontrivial α]

theorem normal_drop_head {as : Script α} (h : Normal (.drop :: as)) (c : α) :
    ∃ s t, act (.drop :: as) s = some t ∧ t.head? ≠ some c := by
  obtain ⟨d, hd⟩ := exists_ne c
  induction as with
  | nil => exact ⟨[c], [], rfl, nofun⟩
  | cons a as ih =>
    cases a with
    | drop =>
      obtain ⟨s, t, hs, ht⟩ := ih h.tail
      exact ⟨c :: s, t, hs, ht⟩
    | put e =>
      have hne := (List.isChain_cons_cons.mp h).1 rfl e
      exact absurd rfl hne
    | keep =>
      obtain ⟨t, ht⟩ := act_total (List.length_replicate (n := baseLen as) (a := d)).symm
      refine ⟨c :: d :: List.replicate (baseLen as) d, d :: t, ?_, ?_⟩
      · simp only [act, ht, Option.map_some]
      · simpa using hd

variable {as bs : Script α}

theorem not_sameEffect_put {a : Atom α} {c : α} (ha : ∀ d, a ≠ .put d) (hn : Normal (a :: as)) :
    ¬SameEffect (a :: as) (.put c :: bs) := by
  intro h
  have first {s t : List α} (hs : act (a :: as) s = some t) : t.head? = some c := by
    obtain ⟨t', -, rfl⟩ := Option.map_eq_some_iff.mp (act_sameEffect h hs)
    rfl
  cases a with
  | put d => exact ha d rfl
  | drop =>
    obtain ⟨s, t, hs, ht⟩ := normal_drop_head hn c
    exact ht (first hs)
  | keep =>
    obtain ⟨d, hd⟩ := exists_ne c
    obtain ⟨t, ht⟩ := act_total (List.length_replicate (n := baseLen as) (a := d)).symm
    have hs : act (.keep :: as) (d :: List.replicate (baseLen as) d) = some (d :: t) := by
      simp only [act, ht, Option.map_some]
    exact hd (Option.some.inj (first hs))

theorem not_sameEffect_drop : ¬SameEffect (.keep :: as) (.drop :: bs) := by
  intro h
  obtain ⟨c, d, hcd⟩ := exists_pair_ne α
  obtain ⟨t, ht⟩ := act_total (List.length_replicate (n := baseLen as) (a := c)).symm
  have kept (e : α) : act bs (List.replicate (baseLen as) c) = some (e :: t) := by
    refine act_sameEffect h (s := e :: List.replicate (baseLen as) c) ?_
    simp only [act, ht, Option.map_some]
  have heq := Option.some.inj ((kept c).symm.trans (kept d))
  exact hcd (List.cons.inj heq).1

theorem keep_tail (h : SameEffect (.keep :: as) (.keep :: bs)) : SameEffect as bs := by
  refine ⟨Nat.succ.inj h.base, fun s => ?_⟩
  obtain ⟨c⟩ : Nonempty α := inferInstance
  exact Option.map_injective (List.cons_injective) (h.act (c :: s))

theorem drop_tail (h : SameEffect (.drop :: as) (.drop :: bs)) : SameEffect as bs := by
  obtain ⟨c⟩ : Nonempty α := inferInstance
  exact ⟨Nat.succ.inj h.base, fun s => h.act (c :: s)⟩

theorem put_tail {c d : α} (h : SameEffect (.put c :: as) (.put d :: bs)) :
    c = d ∧ SameEffect as bs := by
  obtain ⟨e⟩ : Nonempty α := inferInstance
  obtain ⟨t, ht⟩ := act_total (List.length_replicate (n := baseLen as) (a := e)).symm
  have hs : act (.put c :: as) (List.replicate (baseLen as) e) = some (c :: t) := by
    simp only [act, ht, Option.map_some]
  obtain ⟨t', -, heq⟩ := Option.map_eq_some_iff.mp (act_sameEffect h hs)
  obtain rfl : d = c := (List.cons.inj heq).1
  exact ⟨rfl, h.base, fun s => Option.map_injective List.cons_injective (h.act s)⟩

omit [Nontrivial α] in
theorem eq_nil_of_lengths {as : Script α} (hb : baseLen as = 0) (ht : targetLen as = 0) :
    as = [] := by
  cases as with
  | nil => rfl
  | cons a as => cases a <;> simp [baseLen, targetLen] at hb ht

/-- **The normal form is unique.** -/
theorem normal_unique (ha : Normal as) (hb : Normal bs) (h : SameEffect as bs) : as = bs := by
  induction as generalizing bs with
  | nil =>
    have hbase : baseLen bs = 0 := h.base.symm
    have ht := h.targetLen_eq (s := []) rfl
    exact (eq_nil_of_lengths hbase ht.symm).symm
  | cons a as ih =>
    cases bs with
    | nil =>
      have hbase : baseLen (a :: as) = 0 := h.base
      exact eq_nil_of_lengths hbase (h.targetLen_eq (s := []) hbase)
    | cons b bs =>
      cases a with
      | keep =>
        cases b with
        | keep => rw [ih ha.tail hb.tail (keep_tail h)]
        | drop => exact (not_sameEffect_drop h).elim
        | put c => exact (not_sameEffect_put nofun ha h).elim
      | drop =>
        cases b with
        | keep => exact (not_sameEffect_drop h.symm).elim
        | drop => rw [ih ha.tail hb.tail (drop_tail h)]
        | put c => exact (not_sameEffect_put nofun ha h).elim
      | put c =>
        cases b with
        | keep => exact (not_sameEffect_put nofun hb h.symm).elim
        | drop => exact (not_sameEffect_put nofun hb h.symm).elim
        | put d =>
          obtain ⟨rfl, htail⟩ := put_tail h
          rw [ih ha.tail hb.tail htail]

end Unique

/-! ## Splitting -/

theorem append_run_inj {β : Type u} {p : β → Prop} {xs ys rest rest' : List β}
    (hx : ∀ a ∈ xs, p a) (hy : ∀ a ∈ ys, p a) (hr : ∀ a ∈ rest.head?, ¬p a)
    (hr' : ∀ a ∈ rest'.head?, ¬p a) (h : xs ++ rest = ys ++ rest') : xs = ys ∧ rest = rest' := by
  induction xs generalizing ys with
  | nil =>
    cases ys with
    | nil => exact ⟨rfl, h⟩
    | cons y ys =>
      rw [List.nil_append] at h
      exact absurd (hy y List.mem_cons_self) (hr y (by rw [h]; rfl))
  | cons x xs ih =>
    cases ys with
    | nil =>
      rw [List.nil_append] at h
      exact absurd (hx x List.mem_cons_self) (hr' x (by rw [← h]; rfl))
    | cons y ys =>
      obtain ⟨rfl, htail⟩ := List.cons.inj h
      obtain ⟨rfl, hrest⟩ := ih (fun a ha => hx a (List.mem_cons_of_mem _ ha))
        (fun a ha => hy a (List.mem_cons_of_mem _ ha)) htail
      exact ⟨rfl, hrest⟩

theorem getLast?_put {bs : Script α} (hb : baseLen bs = 0) (hne : bs ≠ []) :
    ∃ c, bs.getLast? = some (.put c) := by
  induction bs with
  | nil => exact absurd rfl hne
  | cons b bs ih =>
    cases b with
    | keep => simp [baseLen] at hb
    | drop => simp [baseLen] at hb
    | put c =>
      cases bs with
      | nil => exact ⟨c, rfl⟩
      | cons b bs =>
        obtain ⟨d, hd⟩ := ih hb (List.cons_ne_nil _ _)
        exact ⟨d, by rw [List.getLast?_cons_cons, hd]⟩

theorem getLast?_tail {b : Atom α} {bs : Script α} (h : ∀ c, (b :: bs).getLast? ≠ some (.put c))
    (c : α) : bs.getLast? ≠ some (.put c) := by
  cases bs with
  | nil => nofun
  | cons b' bs =>
    have := h c
    rwa [List.getLast?_cons_cons] at this

/-- Scripts split at one place are carried over each other a part at a time, when the
second does not put anything in there last. -/
theorem transform_append {as bs : Script α} (as' bs' : Script α) (h : baseLen as = baseLen bs)
    (hb : ∀ c, bs.getLast? ≠ some (.put c)) :
    transform (as ++ as') (bs ++ bs') =
      (transform as bs).bind fun p => (transform as' bs').map (prefixed p.1 p.2) := by
  have moved (xs ys : Script α) (o : Option (Script α × Script α)) :
      (o.bind fun p => (transform as' bs').map (prefixed p.1 p.2)).map
          (fun p => (xs ++ p.1, ys ++ p.2)) =
        (o.map fun p => (xs ++ p.1, ys ++ p.2)).bind
          fun p => (transform as' bs').map (prefixed p.1 p.2) := by
    cases o with
    | none => rfl
    | some p => cases transform as' bs' <;> simp [prefixed]
  fun_induction transform as bs with
  | case1 c as bs ih =>
    rw [List.cons_append, transform, ih (by simpa [baseLen] using h) hb]
    exact moved [.put c] [.keep] _
  | case2 as c bs has ih =>
    have hne : as ≠ [] := by
      rintro rfl
      obtain ⟨d, hd⟩ := getLast?_put h.symm (List.cons_ne_nil _ _)
      exact hb d hd
    obtain ⟨a, as, rfl⟩ := List.exists_cons_of_ne_nil hne
    have has' : ∀ d rest, a :: as ++ as' ≠ .put d :: rest := by
      intro d rest heq
      exact has d as (by rw [(List.cons.inj heq).1])
    rw [@List.cons_append _ _ bs, transform.eq_2 _ _ _ has',
      ih (by simpa [baseLen] using h) (getLast?_tail hb)]
    exact moved [.keep] [.put c] _
  | case3 as bs ih =>
    rw [List.cons_append, List.cons_append, transform,
      ih (by simpa [baseLen] using h) (getLast?_tail hb)]
    exact moved [.keep] [.keep] _
  | case4 as bs ih =>
    rw [List.cons_append, List.cons_append, transform,
      ih (by simpa [baseLen] using h) (getLast?_tail hb)]
  | case5 as bs ih =>
    rw [List.cons_append, List.cons_append, transform,
      ih (by simpa [baseLen] using h) (getLast?_tail hb)]
    exact moved [.drop] [] _
  | case6 as bs ih =>
    rw [List.cons_append, List.cons_append, transform,
      ih (by simpa [baseLen] using h) (getLast?_tail hb)]
    exact moved [] [.drop] _
  | case7 =>
    show transform as' bs' = (transform as' bs').map (prefixed [] [])
    rw [prefixed_nil, Option.map_id]
    rfl
  | case8 as bs _ _ _ _ _ _ _ =>
    rcases as with _ | ⟨a | a | a, as⟩ <;> rcases bs with _ | ⟨b | b | b, bs⟩ <;>
      simp_all [baseLen]

end AgenticGit.EditScript
