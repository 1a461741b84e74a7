import AgenticGit.Lib.EditScript
import AgenticGit.Lib.Interleaved
import AgenticGit.Repository.PatchText

/- What a patch does to the text it was made for.

   The source leaves this to `git apply`; here a patch is read by its old side alone. The
   hunks come in base order, each hunk's old side stands at its line of the base revision
   and its new side takes that place. A hunk that changes nothing is none git accepts. The
   lines of a text carry their line breaks, so a last line without one is not a line of a
   hunk.

   What is proved:
     1. `applyHunks_script` — a patch that applies is an edit script.
     2. `applyHunks_sublist` — **hunks can be taken out of a patch that applies**.
     3. `applyHunks_lands` — a renumbered hunk starts where its new side stands.
     4. `applyHunks_together` — hunks that were sorted apart and put back in base order
        do what they did before. -/
namespace AgenticGit.Repository
open AgenticGit.Runtime AgenticGit.Shared AgenticGit.EditScript AgenticGit.Interleave

/-! ## Sides -/

def lineText (line : Line) : Line := line.drop 1 ++ ['\n']

def oldSide (body : List Line) : List Line :=
  (body.filter fun line => !Line.startsWith line "+").map lineText

def newSide (body : List Line) : List Line :=
  (body.filter fun line => !Line.startsWith line "-").map lineText

/-- How many base lines stand before a hunk. Without old lines it is numbered by the line
before it. -/
def ParsedHunk.before (hunk : ParsedHunk) : Nat :=
  if hunk.oldCount = 0 then hunk.oldStart else hunk.oldStart - 1

def ParsedHunk.after (hunk : ParsedHunk) : Nat := hunk.before + hunk.oldCount

/-- Lines are numbered from one, and a hunk changes some. -/
def Accepted (hunk : ParsedHunk) : Prop :=
  (0 < hunk.oldCount → 0 < hunk.oldStart) ∧
    ∃ line ∈ hunk.body, Line.startsWith line "+" = true ∨ Line.startsWith line "-" = true

instance : DecidablePred Accepted := fun hunk =>
  inferInstanceAs (Decidable ((0 < hunk.oldCount → 0 < hunk.oldStart) ∧
    ∃ line ∈ hunk.body, Line.startsWith line "+" = true ∨ Line.startsWith line "-" = true))

/-- The hunk's old side stands in the text, from `position` on. -/
def Fits (base : List Line) (position : Nat) (hunk : ParsedHunk) : Prop :=
  Accepted hunk ∧ position ≤ hunk.before ∧ hunk.before ≤ base.length ∧
    oldSide hunk.body <+: base.drop hunk.before

instance (base : List Line) (position : Nat) : DecidablePred (Fits base position) := fun hunk =>
  inferInstanceAs (Decidable (Accepted hunk ∧ position ≤ hunk.before ∧
    hunk.before ≤ base.length ∧ oldSide hunk.body <+: base.drop hunk.before))

/-- What the hunks make of the text from `position` on. -/
def applyFrom (base : List Line) : Nat → List ParsedHunk → Option (List Line)
  | position, [] => some (base.drop position)
  | position, hunk :: hunks =>
    if Fits base position hunk then
      (applyFrom base hunk.after hunks).map fun rest =>
        (base.drop position).take (hunk.before - position) ++ (newSide hunk.body ++ rest)
    else none

def applyHunks (base : List Line) (hunks : List ParsedHunk) : Option (List Line) :=
  applyFrom base 0 hunks

theorem applyFrom_cons {base : List Line} {position : Nat} {hunk : ParsedHunk}
    {hunks : List ParsedHunk} {text : List Line}
    (h : applyFrom base position (hunk :: hunks) = some text) :
    Fits base position hunk ∧ ∃ rest, applyFrom base hunk.after hunks = some rest ∧
      text = (base.drop position).take (hunk.before - position) ++
        (newSide hunk.body ++ rest) := by
  rw [applyFrom] at h
  split at h
  · rename_i hfits
    obtain ⟨rest, hrest, rfl⟩ := Option.map_eq_some_iff.mp h
    exact ⟨hfits, rest, hrest, rfl⟩
  · cases h

theorem applyFrom_of_fits {base : List Line} {position : Nat} {hunk : ParsedHunk}
    {hunks : List ParsedHunk} {rest : List Line} (hfits : Fits base position hunk)
    (h : applyFrom base hunk.after hunks = some rest) :
    applyFrom base position (hunk :: hunks) =
      some ((base.drop position).take (hunk.before - position) ++
        (newSide hunk.body ++ rest)) := by
  rw [applyFrom, if_pos hfits, h, Option.map_some]

/-! ## Lengths -/

theorem Shaped.length_oldSide {hunk : ParsedHunk} (h : Shaped hunk) :
    (oldSide hunk.body).length = hunk.oldCount := by
  rw [← h.oldCount, oldSide, List.length_map, oldLines]

theorem Shaped.length_newSide {hunk : ParsedHunk} (h : Shaped hunk) :
    (newSide hunk.body).length = hunk.newCount := by
  rw [← h.newCount, newSide, List.length_map, newLines]

theorem Fits.split {base : List Line} {position : Nat} {hunk : ParsedHunk}
    (h : Fits base position hunk) (hs : Shaped hunk) :
    hunk.after ≤ base.length ∧
      base.drop position = (base.drop position).take (hunk.before - position) ++
        (oldSide hunk.body ++ base.drop hunk.after) := by
  obtain ⟨-, hposition, hbefore, rest, hrest⟩ := h
  have hlength := congrArg List.length hrest
  rw [List.length_append, hs.length_oldSide, List.length_drop] at hlength
  have hafter : hunk.after ≤ base.length := by
    unfold ParsedHunk.after
    omega
  refine ⟨hafter, ?_⟩
  have hrest' : base.drop hunk.after = rest := by
    rw [ParsedHunk.after, ← List.drop_drop, ← hrest, ← hs.length_oldSide, List.drop_left]
  have hdrop : base.drop hunk.before = (base.drop position).drop (hunk.before - position) := by
    rw [List.drop_drop, Nat.add_sub_cancel' hposition]
  rw [hrest', hrest, hdrop, List.take_append_drop]

def growth : List ParsedHunk → Int
  | [] => 0
  | hunk :: hunks => (hunk.newCount - hunk.oldCount) + growth hunks

theorem applyFrom_length {base : List Line} {hunks : List ParsedHunk}
    (hs : ∀ hunk ∈ hunks, Shaped hunk) {position : Nat} {text : List Line}
    (hle : position ≤ base.length) (h : applyFrom base position hunks = some text) :
    (text.length : Int) = base.length - position + growth hunks := by
  induction hunks generalizing position text with
  | nil =>
    obtain rfl := Option.some.inj h
    rw [List.length_drop, growth]
    omega
  | cons hunk hunks ih =>
    rw [List.forall_mem_cons] at hs
    obtain ⟨hfits, rest, hrest, rfl⟩ := applyFrom_cons h
    obtain ⟨hafter, -⟩ := hfits.split hs.1
    have hrest := ih hs.2 hafter hrest
    have hbefore := hfits.2.2.1
    have hposition := hfits.2.1
    rw [List.length_append, List.length_append, hs.1.length_newSide, List.length_take,
      List.length_drop, growth]
    unfold ParsedHunk.after at hrest
    omega

/-! ## The script of a patch -/

def lineAtom (line : Line) : Atom Line :=
  if Line.startsWith line "-" then .drop
  else if Line.startsWith line "+" then .put (lineText line)
  else .keep

def bodyScript (body : List Line) : Script Line := body.map lineAtom

/-- The hunks as an edit of a text of `length` lines, from `position` on. -/
def patchScript (length : Nat) : Nat → List ParsedHunk → Script Line
  | position, [] => keeps (length - position)
  | position, hunk :: hunks =>
    keeps (hunk.before - position) ++ (bodyScript hunk.body ++ patchScript length hunk.after hunks)

theorem not_plus_of_minus {line : Line} (h : Line.startsWith line "-" = true) :
    Line.startsWith line "+" = false := by
  cases line with
  | nil => rfl
  | cons c line =>
    simp only [Line.startsWith, String.reduceToList, List.isPrefixOf, Bool.and_true,
      beq_iff_eq] at h ⊢
    rw [← h]
    rfl

theorem act_bodyScript (body : List Line) :
    act (bodyScript body) (oldSide body) = some (newSide body) := by
  induction body with
  | nil => rfl
  | cons line body ih =>
    unfold bodyScript oldSide newSide at ih ⊢
    rw [List.map_cons, lineAtom]
    by_cases hminus : Line.startsWith line "-" = true
    · have hplus := not_plus_of_minus hminus
      simp [hminus, hplus, act, ih]
    · by_cases hplus : Line.startsWith line "+" = true
      · simp [hminus, hplus, act, ih]
      · simp [hminus, hplus, act, ih]

/-- **A patch that applies is an edit script.** -/
theorem applyFrom_script {base : List Line} {hunks : List ParsedHunk}
    (hs : ∀ hunk ∈ hunks, Shaped hunk) {position : Nat} {text : List Line}
    (h : applyFrom base position hunks = some text) :
    act (patchScript base.length position hunks) (base.drop position) = some text := by
  induction hunks generalizing position text with
  | nil =>
    obtain rfl := Option.some.inj h
    rw [patchScript, ← List.length_drop, act_keeps]
  | cons hunk hunks ih =>
    rw [List.forall_mem_cons] at hs
    obtain ⟨hfits, rest, hrest, rfl⟩ := applyFrom_cons h
    obtain ⟨hafter, hsplit⟩ := hfits.split hs.1
    have hgap : ((base.drop position).take (hunk.before - position)).length =
        hunk.before - position := by
      have hbefore := hfits.2.2.1
      rw [List.length_take, List.length_drop]
      omega
    rw [patchScript, hsplit]
    refine act_append_some ?_ (act_append_some (act_bodyScript _) (ih hs.2 hrest))
    rw [← hsplit]
    nth_rewrite 1 [← hgap]
    exact act_keeps _

theorem applyHunks_script {base text : List Line} {hunks : List ParsedHunk}
    (hs : ∀ hunk ∈ hunks, Shaped hunk) (h : applyHunks base hunks = some text) :
    act (patchScript base.length 0 hunks) base = some text := applyFrom_script hs h

/-! ## Taking hunks out -/

theorem applyFrom_earlier {base : List Line} {hunks : List ParsedHunk} {position later : Nat}
    {text : List Line} (hle : position ≤ later) (h : applyFrom base later hunks = some text) :
    ∃ part, applyFrom base position hunks = some part := by
  cases hunks with
  | nil => exact ⟨_, rfl⟩
  | cons hunk hunks =>
    obtain ⟨⟨haccepted, hposition, hfits⟩, rest, hrest, -⟩ := applyFrom_cons h
    exact ⟨_, applyFrom_of_fits ⟨haccepted, hle.trans hposition, hfits⟩ hrest⟩

theorem applyFrom_sublist {base : List Line} {kept hunks : List ParsedHunk}
    (hsub : kept.Sublist hunks) {position : Nat} {text : List Line}
    (h : applyFrom base position hunks = some text) :
    ∃ part, applyFrom base position kept = some part := by
  induction hsub generalizing position text with
  | slnil => exact ⟨text, h⟩
  | cons hunk hsub ih =>
    obtain ⟨hfits, rest, hrest, -⟩ := applyFrom_cons h
    obtain ⟨part, hpart⟩ := ih hrest
    exact applyFrom_earlier (hfits.2.1.trans (Nat.le_add_right _ _)) hpart
  | cons_cons hunk hsub ih =>
    obtain ⟨hfits, rest, hrest, -⟩ := applyFrom_cons h
    obtain ⟨part, hpart⟩ := ih hrest
    exact ⟨_, applyFrom_of_fits hfits hpart⟩

/-- **Hunks can be taken out of a patch that applies.** -/
theorem applyHunks_sublist {base text : List Line} {kept hunks : List ParsedHunk}
    (hsub : kept.Sublist hunks) (h : applyHunks base hunks = some text) :
    ∃ part, applyHunks base kept = some part := applyFrom_sublist hsub h

/-! ## Where a hunk lands -/

theorem applyFrom_split {base : List Line} {earlier : List ParsedHunk} {hunk : ParsedHunk}
    {later : List ParsedHunk} (hs : ∀ other ∈ earlier, Shaped other) {position : Nat}
    {text : List Line} (h : applyFrom base position (earlier ++ hunk :: later) = some text) :
    position ≤ hunk.before ∧ Fits base hunk.before hunk ∧ ∃ front rest,
      applyFrom (base.take hunk.before) position earlier = some front ∧
      text = front ++ (newSide hunk.body ++ rest) := by
  induction earlier generalizing position text with
  | nil =>
    obtain ⟨hfits, rest, -, rfl⟩ := applyFrom_cons h
    refine ⟨hfits.2.1, ⟨hfits.1, Nat.le_refl _, hfits.2.2⟩, _, rest, rfl, ?_⟩
    rw [List.drop_take]
  | cons other earlier ih =>
    rw [List.forall_mem_cons] at hs
    obtain ⟨hfits, rest, hrest, rfl⟩ := applyFrom_cons h
    obtain ⟨hafter, hhunk, front, later, hfront, rfl⟩ := ih hs.2 hrest
    have hbefore := hhunk.2.2.1
    unfold ParsedHunk.after at hafter
    have hother : Fits (base.take hunk.before) position other := by
      obtain ⟨haccepted, hposition, hlength, hstands⟩ := hfits
      refine ⟨haccepted, hposition, by rw [List.length_take]; omega, ?_⟩
      rw [List.drop_take]
      refine List.prefix_take_iff.mpr ⟨hstands, ?_⟩
      rw [hs.1.length_oldSide]
      omega
    have hposition := hfits.2.1
    refine ⟨by omega, hhunk,
      (base.drop position).take (other.before - position) ++ (newSide other.body ++ front),
      later, ?_, by simp only [List.append_assoc]⟩
    rw [applyFrom_of_fits hother hfront, List.drop_take, List.take_take,
      Nat.min_eq_left (by omega)]

theorem emitHunks_append (first second : List ParsedHunk) (delta : Int) :
    emitHunks (first ++ second) delta =
      emitHunks first delta ++ emitHunks second (delta + growth first) := by
  induction first generalizing delta with
  | nil => simp [emitHunks, growth]
  | cons hunk first ih =>
    rw [List.cons_append, emitHunks_cons, emitHunks_cons, ih, growth]
    simp [Int.add_assoc]

/-- Where a new side that stands behind `front` starts: at its own first line, or at the line
before it when it has none. -/
def startBehind (front : List Line) (hunk : ParsedHunk) : Int :=
  if hunk.newCount = 0 then front.length else front.length + 1

theorem Shaped.plus {hunk : ParsedHunk} (h : Shaped hunk) (hold : hunk.oldCount = 0) :
    ∀ line ∈ hunk.body, Line.startsWith line "+" = true := by
  have hcount := h.oldCount
  rw [hold, oldLines, List.length_eq_zero_iff, List.filter_eq_nil_iff] at hcount
  simpa using hcount

theorem accepted_newCount {hunk : ParsedHunk} (hs : Shaped hunk) (h : Accepted hunk)
    (hold : hunk.oldCount = 0) : 0 < hunk.newCount := by
  obtain ⟨-, line, hline, hsign⟩ := h
  have hplus := hs.plus hold line hline
  have hminus : Line.startsWith line "-" = false := by
    cases hminus : Line.startsWith line "-" with
    | false => rfl
    | true => rw [not_plus_of_minus hminus] at hplus; cases hplus
  rw [← hs.newCount, newLines]
  exact List.length_pos_of_mem (List.mem_filter.mpr ⟨hline, by simp [hminus]⟩)

theorem newStart_lands {base : List Line} {earlier : List ParsedHunk} {hunk : ParsedHunk}
    (hs : ∀ other ∈ earlier, Shaped other) (hhunk : Shaped hunk)
    (hfits : Fits base hunk.before hunk) {front : List Line}
    (h : applyFrom (base.take hunk.before) 0 earlier = some front) :
    newStart hunk (growth earlier) = startBehind front hunk := by
  have hlength := applyFrom_length hs (Nat.zero_le _) h
  have hbefore := hfits.2.2.1
  rw [List.length_take, Nat.min_eq_left hbefore] at hlength
  have hnumbered := hfits.1.1
  have hnew := accepted_newCount hhunk hfits.1
  unfold newStart startBehind
  unfold ParsedHunk.before at hlength
  by_cases hold : hunk.oldCount = 0
  · simp only [hold, if_true, Nat.ne_of_gt (hnew hold), if_false] at hlength ⊢
    omega
  · have hpos := hnumbered (Nat.pos_of_ne_zero hold)
    simp only [hold, if_false] at hlength ⊢
    split <;> omega

/-- **A renumbered hunk starts where its new side stands.** -/
structure Lands (base text : List Line) (hunks : List ParsedHunk) (earlier : List ParsedHunk)
    (hunk : ParsedHunk) : Prop where
  count : (newSide hunk.body).length = hunk.newCount
  stands : ∃ front rest more, applyHunks (base.take hunk.before) earlier = some front ∧
    text = front ++ (newSide hunk.body ++ rest) ∧
    emitHunks hunks 0 = emitHunks earlier 0 ++
      (headerLine hunk.oldStart hunk.oldCount (startBehind front hunk) hunk.newCount
        hunk.heading :: (hunk.body ++ more))

theorem applyHunks_lands {base text : List Line} {hunks earlier later : List ParsedHunk}
    {hunk : ParsedHunk} (hs : ∀ hunk ∈ hunks, Shaped hunk)
    (h : applyHunks base hunks = some text) (heq : hunks = earlier ++ hunk :: later) :
    Lands base text hunks earlier hunk := by
  subst heq
  have hearlier : ∀ other ∈ earlier, Shaped other :=
    fun other hother => hs other (List.mem_append_left _ hother)
  have hhunk : Shaped hunk := hs hunk (List.mem_append_right _ List.mem_cons_self)
  obtain ⟨-, hfits, front, rest, hfront, rfl⟩ := applyFrom_split hearlier h
  have hemit := emitHunks_append earlier (hunk :: later) 0
  rw [emitHunks_cons, Int.zero_add, newStart_lands hearlier hhunk hfits hfront] at hemit
  exact ⟨hhunk.length_newSide, front, rest, _, hfront, rfl, hemit⟩

/-! ## Putting hunks together -/

/-- Base order: by the lines before a hunk, an insertion ahead of a change of the next line. -/
def comesFirst (first second : ParsedHunk) : Bool :=
  first.before < second.before || (first.before = second.before && first.after ≤ second.after)

def together (first second : List ParsedHunk) : List ParsedHunk :=
  List.merge first second comesFirst

theorem applyFrom_ordered {base : List Line} {hunks : List ParsedHunk} {position : Nat}
    {text : List Line} (h : applyFrom base position hunks = some text) :
    (∀ hunk ∈ hunks, position ≤ hunk.before ∧ Accepted hunk) ∧
      hunks.Pairwise fun first second => first.after ≤ second.before := by
  induction hunks generalizing position text with
  | nil => exact ⟨by simp, .nil⟩
  | cons hunk hunks ih =>
    obtain ⟨hfits, rest, hrest, -⟩ := applyFrom_cons h
    obtain ⟨hall, hpairs⟩ := ih hrest
    have hafter : hunk.before ≤ hunk.after := Nat.le_add_right _ _
    refine ⟨List.forall_mem_cons.mpr ⟨⟨hfits.2.1, hfits.1⟩, ?_⟩, ?_⟩
    · intro other hother
      exact ⟨hfits.2.1.trans (hafter.trans (hall other hother).1), (hall other hother).2⟩
    · exact List.pairwise_cons.mpr ⟨fun other hother => (hall other hother).1, hpairs⟩

/-- **Hunks sorted apart and put together do what they did**, when insertions at one place
stay together. -/
theorem applyHunks_together {base text : List Line} {hunks : List ParsedHunk}
    {p : ParsedHunk → Bool} (h : applyHunks base hunks = some text)
    (hp : ∀ first ∈ hunks, ∀ second ∈ hunks, Accepted first → Accepted second →
      first.oldCount = 0 → second.oldCount = 0 → first.before = second.before →
      p first = p second) :
    applyHunks base (together (hunks.filter p) (hunks.filter fun hunk => !p hunk)) =
      some text := by
  obtain ⟨hall, hpairs⟩ := applyFrom_ordered h
  rw [together, merge_filter, h]
  refine hpairs.imp_of_mem fun {first second} hfirst hsecond hle => ?_
  unfold ParsedHunk.after at hle
  unfold comesFirst ParsedHunk.after
  refine ⟨by simp; omega, fun hback => ?_⟩
  simp only [Bool.or_eq_true, Bool.and_eq_true, decide_eq_true_eq] at hback
  exact hp first hfirst second hsecond (hall first hfirst).2 (hall second hsecond).2
    (by omega) (by omega) (by omega)

end AgenticGit.Repository
