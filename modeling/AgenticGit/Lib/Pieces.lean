import Mathlib.Data.List.Pairwise
import Mathlib.Data.List.Flatten

/- Texts cut into pieces.

   A reader that goes through a text once cuts it into consecutive pieces of
   several kinds. This file keeps the two things such a reader is asked for
   apart from how it reads: the text with the pieces of some kinds blanked,
   and the places where the pieces of some kinds stand. It proves

   1. that a blanked text is as long as the text, agrees with it on every
      piece that is shown and is blank on every piece that is hidden
      (`mask_length`, `mask_shown`, `mask_hidden`), and that every position
      belongs to a piece (`exists_placed`);
   2. that the places are in order, disjoint and inside the text
      (`placed_ordered`, `placed_inside`), also after some kinds are left out
      (`spans_ordered`, `spans_inside`). -/
namespace AgenticGit.Pieces

variable {α κ : Type}

/-! ## Pieces, their text and their places -/

/-- A run of a text, and what it was read as. -/
structure Piece (α κ : Type) where
  kind : κ
  text : List α

def textOf (pieces : List (Piece α κ)) : List α := pieces.flatMap Piece.text

/-- The text with the pieces of the hidden kinds blanked. -/
def mask (blank : α → α) (hidden : κ → Bool) (pieces : List (Piece α κ)) : List α :=
  pieces.flatMap fun p => if hidden p.kind then p.text.map blank else p.text

/-- Where a piece stands: its first position, the position after its last, its kind. -/
structure Place (κ : Type) where
  start : Nat
  stop : Nat
  kind : κ

/-- The places of the pieces of a text that begins at `start`. -/
def placed : Nat → List (Piece α κ) → List (Place κ)
  | _, [] => []
  | start, p :: ps => ⟨start, start + p.text.length, p.kind⟩ :: placed (start + p.text.length) ps

/-- The first and the next position of the pieces of the wanted kinds. -/
def spans (wanted : κ → Bool) (start : Nat) (pieces : List (Piece α κ)) : List (Nat × Nat) :=
  ((placed start pieces).filter fun q => wanted q.kind).map fun q => (q.start, q.stop)

@[simp] theorem textOf_nil : textOf ([] : List (Piece α κ)) = [] := rfl

@[simp] theorem textOf_cons (p : Piece α κ) (ps : List (Piece α κ)) :
    textOf (p :: ps) = p.text ++ textOf ps := List.flatMap_cons

@[simp] theorem textOf_append (ps qs : List (Piece α κ)) :
    textOf (ps ++ qs) = textOf ps ++ textOf qs := List.flatMap_append

@[simp] theorem mask_nil (blank : α → α) (hidden : κ → Bool) :
    mask blank hidden ([] : List (Piece α κ)) = [] := rfl

@[simp] theorem mask_append (blank : α → α) (hidden : κ → Bool) (ps qs : List (Piece α κ)) :
    mask blank hidden (ps ++ qs) = mask blank hidden ps ++ mask blank hidden qs :=
  List.flatMap_append

theorem mask_single (blank : α → α) (hidden : κ → Bool) (p : Piece α κ) :
    mask blank hidden [p] = if hidden p.kind then p.text.map blank else p.text := by
  simp only [mask, List.flatMap_cons, List.flatMap_nil, List.append_nil]

theorem mask_single_length (blank : α → α) (hidden : κ → Bool) (p : Piece α κ) :
    (mask blank hidden [p]).length = p.text.length := by
  rw [mask_single]
  split
  · exact List.length_map _
  · rfl

theorem mask_cons (blank : α → α) (hidden : κ → Bool) (p : Piece α κ) (ps : List (Piece α κ)) :
    mask blank hidden (p :: ps) = mask blank hidden [p] ++ mask blank hidden ps :=
  mask_append blank hidden [p] ps

theorem mask_length (blank : α → α) (hidden : κ → Bool) (pieces : List (Piece α κ)) :
    (mask blank hidden pieces).length = (textOf pieces).length := by
  induction pieces with
  | nil => rfl
  | cons p ps ih =>
    rw [mask_cons, List.length_append, mask_single_length, ih, textOf_cons, List.length_append]

theorem placed_append (start : Nat) (ps qs : List (Piece α κ)) :
    placed start (ps ++ qs) = placed start ps ++ placed (start + (textOf ps).length) qs := by
  induction ps generalizing start with
  | nil => rfl
  | cons p ps ih =>
    rw [List.cons_append, placed, placed, ih, List.cons_append, textOf_cons, List.length_append,
      Nat.add_assoc]

theorem spans_append (wanted : κ → Bool) (start : Nat) (ps qs : List (Piece α κ)) :
    spans wanted start (ps ++ qs) =
      spans wanted start ps ++ spans wanted (start + (textOf ps).length) qs := by
  rw [spans, placed_append, List.filter_append, List.map_append]
  rfl

theorem spans_single (wanted : κ → Bool) (start : Nat) (p : Piece α κ) :
    spans wanted start [p] = if wanted p.kind then [(start, start + p.text.length)] else [] := by
  cases hw : wanted p.kind with
  | true => simp [spans, placed, hw]
  | false => simp [spans, placed, hw]

/-! ## The places -/

variable {pieces : List (Piece α κ)} {wanted : κ → Bool}

theorem mem_placed {start : Nat} {q : Place κ} (hq : q ∈ placed start pieces) :
    ∃ before p after, pieces = before ++ p :: after ∧ q.kind = p.kind ∧
      q.start = start + (textOf before).length ∧ q.stop = q.start + p.text.length := by
  induction pieces generalizing start with
  | nil => cases hq
  | cons p ps ih =>
    rcases List.mem_cons.1 hq with rfl | hq
    · exact ⟨[], p, ps, rfl, rfl, rfl, rfl⟩
    · obtain ⟨before, p', after, rfl, hk, hs, he⟩ := ih hq
      refine ⟨p :: before, p', after, rfl, hk, ?_, he⟩
      rw [hs, textOf_cons, List.length_append, Nat.add_assoc]

theorem placed_inside {start : Nat} {q : Place κ} (hq : q ∈ placed start pieces) :
    start ≤ q.start ∧ q.start ≤ q.stop ∧ q.stop ≤ start + (textOf pieces).length := by
  obtain ⟨before, p, after, rfl, -, hs, he⟩ := mem_placed hq
  rw [textOf_append, textOf_cons, List.length_append, List.length_append]
  omega

/-- **The places are in order and disjoint**. -/
theorem placed_ordered (start : Nat) (pieces : List (Piece α κ)) :
    (placed start pieces).Pairwise fun a b => a.stop ≤ b.start := by
  induction pieces generalizing start with
  | nil => exact List.Pairwise.nil
  | cons p ps ih => exact List.Pairwise.cons (fun q hq => (placed_inside hq).1) (ih _)

theorem exists_placed {start : Nat} {i : Nat} (hs : start ≤ i)
    (hi : i < start + (textOf pieces).length) :
    ∃ q ∈ placed start pieces, q.start ≤ i ∧ i < q.stop := by
  induction pieces generalizing start with
  | nil => simp only [textOf_nil, List.length_nil] at hi; omega
  | cons p ps ih =>
    rw [textOf_cons, List.length_append] at hi
    by_cases hp : i < start + p.text.length
    · exact ⟨_, List.mem_cons_self, hs, hp⟩
    · obtain ⟨q, hq, h⟩ := @ih (start + p.text.length) (by omega) (by omega)
      exact ⟨q, List.mem_cons_of_mem _ hq, h⟩

theorem spans_ordered (wanted : κ → Bool) (start : Nat) (pieces : List (Piece α κ)) :
    (spans wanted start pieces).Pairwise fun a b => a.2 ≤ b.1 :=
  List.pairwise_map.2 ((placed_ordered start pieces).filter _)

theorem mem_spans {start : Nat} {s : Nat × Nat} : s ∈ spans wanted start pieces ↔
      ∃ q ∈ placed start pieces, wanted q.kind = true ∧ (q.start, q.stop) = s := by
  simp only [spans, List.mem_map, List.mem_filter, and_assoc]

theorem spans_inside {start : Nat} {s : Nat × Nat} (hs : s ∈ spans wanted start pieces) :
    start ≤ s.1 ∧ s.1 ≤ s.2 ∧ s.2 ≤ start + (textOf pieces).length := by
  obtain ⟨q, hq, -, rfl⟩ := mem_spans.1 hs
  exact placed_inside hq

/-! ## The blanked text -/

section Masked

variable {blank : α → α} {hidden : κ → Bool}

variable {pieces : List (Piece α κ)} {i : Nat}

theorem mask_at {q : Place κ} (hq : q ∈ placed 0 pieces) (hs : q.start ≤ i) (he : i < q.stop) :
    (mask blank hidden pieces)[i]? =
      (textOf pieces)[i]?.map fun u => if hidden q.kind then blank u else u := by
  obtain ⟨before, p, after, rfl, hk, hstart, hstop⟩ := mem_placed hq
  rw [Nat.zero_add] at hstart
  have hlen := mask_length blank hidden before
  have hsingle := mask_single_length blank hidden p
  have hmask : (mask blank hidden (before ++ p :: after))[i]? =
      (mask blank hidden [p])[i - (textOf before).length]? := by
    rw [mask_append, mask_cons, List.getElem?_append_right (by omega), hlen,
      List.getElem?_append_left (by omega)]
  have htext : (textOf (before ++ p :: after))[i]? = p.text[i - (textOf before).length]? := by
    rw [textOf_append, textOf_cons, List.getElem?_append_right (by omega),
      List.getElem?_append_left (by omega)]
  rw [hmask, htext, hk, mask_single]
  cases hidden p.kind with
  | true => exact List.getElem?_map
  | false => exact (congrFun Option.map_id _).symm

/-- **A shown piece is unchanged**. -/
theorem mask_shown {q : Place κ} (hq : q ∈ placed 0 pieces) (hs : q.start ≤ i) (he : i < q.stop)
    (hk : hidden q.kind = false) : (mask blank hidden pieces)[i]? = (textOf pieces)[i]? := by
  rw [mask_at hq hs he, hk]
  cases (textOf pieces)[i]? <;> rfl

/-- **A hidden piece is blank**. -/
theorem mask_hidden {q : Place κ} (hq : q ∈ placed 0 pieces) (hs : q.start ≤ i) (he : i < q.stop)
    (hk : hidden q.kind = true) :
    (mask blank hidden pieces)[i]? = (textOf pieces)[i]?.map blank := by
  rw [mask_at hq hs he, hk]
  rfl

theorem of_mask {u : α} (hu : ∀ v, blank v ≠ u) (hi : (mask blank hidden pieces)[i]? = some u) :
    (textOf pieces)[i]? = some u ∧
      ∃ q ∈ placed 0 pieces, q.start ≤ i ∧ i < q.stop ∧ hidden q.kind = false := by
  have hlt : i < (textOf pieces).length := by
    rw [← mask_length blank hidden pieces]
    exact (List.getElem?_eq_some_iff.1 hi).1
  obtain ⟨q, hq, hs, he⟩ := exists_placed (Nat.zero_le i) (by rw [Nat.zero_add]; exact hlt)
  cases hk : hidden q.kind with
  | true =>
    rw [mask_hidden hq hs he hk] at hi
    obtain ⟨v, -, hv⟩ := Option.map_eq_some_iff.1 hi
    exact absurd hv (hu v)
  | false => exact ⟨(mask_shown hq hs he hk).symm.trans hi, q, hq, hs, he, hk⟩

end Masked

end AgenticGit.Pieces
