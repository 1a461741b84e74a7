import AgenticGit.Repository.Patch

/- What `parseUnifiedPatch` makes of the text `emitPatch` writes (`patch.ts`).

   A hunk that was parsed has a body of lines the parser takes for a body, and counts that
   are those of the body (`Shaped`). Hunks of that shape are read back from the text when no
   new side starts below zero, and when the text does not end in a blank line that is taken
   for its last line break (`Emittable`).

   What is proved:
     1. `hunkHeader_emitted` — a header is read back, unless the new side is negative.
     2. `parseUnifiedPatch_shaped` — what was parsed has the shape.
     3. `parse_emitPatch`, `parse_emitPatch_none` — **a selection of hunks is read back
        exactly when it is emittable**, and is otherwise no patch. -/
namespace AgenticGit.Repository
open AgenticGit.Runtime AgenticGit.Shared

/-! ## Numbers -/

theorem readDigits_toDigits (n : Nat) : readDigits (Nat.toDigits 10 n) = n := by
  rw [show readDigits (Nat.toDigits 10 n) = Nat.ofDigitChars 10 (Nat.toDigits 10 n) 0 from rfl,
    Nat.ofDigitChars_ten_toDigits]

theorem number_digits (n : Nat) {rest : Line} (h : ∀ c ∈ rest.head?, c.isDigit = false) :
    number ((toString n).toList ++ rest) = some (n, rest) := by
  have hdigits : (toString n).toList = Nat.toDigits 10 n := by
    rw [Nat.toString_eq_repr, Nat.toList_repr]
  have hall : ∀ c ∈ Nat.toDigits 10 n, c.isDigit = true :=
    fun c hc => Nat.isDigit_of_mem_toDigits (by decide) (by decide) hc
  have hrest : rest.takeWhile Char.isDigit = [] ∧ rest.dropWhile Char.isDigit = rest := by
    cases rest with
    | nil => exact ⟨rfl, rfl⟩
    | cons c rest =>
      have hc := h c rfl
      simp [hc]
  have hnonempty : Nat.toDigits 10 n ≠ [] := by
    intro hnil
    rw [← Nat.toList_repr] at hnil
    exact Nat.repr_ne_empty (String.toList_eq_nil_iff.mp hnil)
  unfold number
  rw [hdigits, List.takeWhile_append_of_pos hall, List.dropWhile_append_of_pos hall, hrest.1,
    hrest.2, List.append_nil]
  split
  · rename_i hnil
    exact absurd hnil hnonempty
  · rw [readDigits_toDigits]

/-! ## Headers -/

/-- The header `emitPatch` writes. -/
def headerLine (oldStart oldCount : Nat) (newStart : Int) (newCount : Nat) (heading : Line) :
    Line :=
  s!"@@ -{oldStart},{oldCount} +{newStart},{newCount} @@".toList ++ heading

theorem headerLine_eq (oldStart oldCount : Nat) (newStart : Int) (newCount : Nat)
    (heading : Line) :
    headerLine oldStart oldCount newStart newCount heading =
      "@@ -".toList ++ ((toString oldStart).toList ++ (',' :: ((toString oldCount).toList ++
        (" +".toList ++ ((toString newStart).toList ++ (',' :: ((toString newCount).toList ++
          (" @@".toList ++ heading)))))))) := by
  unfold headerLine
  simp only [String.toList_append, List.append_assoc, toString]
  rfl

theorem dropPrefix?_append (head line : Line) : (head ++ line).dropPrefix? head = some line := by
  induction head with
  | nil => cases line <;> rfl
  | cons c head ih =>
    rw [List.cons_append, List.dropPrefix?, if_pos (beq_self_eq_true c), ih]

theorem skip_append (text : String) (line : Line) :
    skip text (text.toList ++ line) = some line := dropPrefix?_append _ _

theorem optionalCount_digits (n : Nat) {rest : Line} (h : ∀ c ∈ rest.head?, c.isDigit = false) :
    optionalCount (',' :: ((toString n).toList ++ rest)) = (some n, rest) := by
  simp only [optionalCount, number_digits n h]

theorem comma_head (line : Line) : ∀ c ∈ (',' :: line).head?, c.isDigit = false := by
  intro c hc
  obtain rfl := Option.some.inj hc
  rfl

theorem space_head (text : String) (line : Line) (h : text.toList.head? = some ' ') :
    ∀ c ∈ (text.toList ++ line).head?, c.isDigit = false := by
  intro c hc
  rw [List.head?_append, h] at hc
  obtain rfl := Option.some.inj hc
  rfl

/-- **A header is read back.** -/
theorem hunkHeader_emitted (oldStart oldCount newStart newCount : Nat) (heading : Line) :
    hunkHeader (headerLine oldStart oldCount newStart newCount heading) =
      some ⟨oldStart, some oldCount, heading⟩ := by
  have hint : toString (newStart : Int) = toString newStart := rfl
  rw [headerLine_eq, hint]
  simp only [hunkHeader, skip_append, number_digits _ (comma_head _),
    optionalCount_digits _ (space_head " +" _ rfl), optionalCount_digits _ (space_head " @@" _ rfl),
    Option.bind_eq_bind, Option.bind_some, Option.pure_def]

/-- **A new side below zero is not read as a header.** -/
theorem hunkHeader_negative (oldStart oldCount newStart newCount : Nat) (heading : Line) :
    hunkHeader (headerLine oldStart oldCount (Int.negSucc newStart) newCount heading) = none := by
  have hminus (line : Line) :
      number ((toString (Int.negSucc newStart)).toList ++ line) = none := by
    have hint : toString (Int.negSucc newStart) = "-" ++ toString (newStart + 1) := rfl
    rw [hint, String.toList_append]
    rfl
  rw [headerLine_eq]
  simp only [hunkHeader, skip_append, number_digits _ (comma_head _),
    optionalCount_digits _ (space_head " +" _ rfl), hminus, Option.bind_eq_bind, Option.bind_some,
    Option.bind_none]

/-! ## Lines the parser reads -/

/-- A line the parser takes for part of a hunk. -/
structure BodyLine (line : Line) : Prop where
  header : hunkHeader line = none
  marker : Line.startsWith line "\\" = false
  known : Line.startsWith line " " = true ∨ Line.startsWith line "+" = true ∨
    Line.startsWith line "-" = true ∨ line = []
  unbroken : '\n' ∉ line

/-- A hunk while its body is being read. -/
structure Reading (hunk : ParsedHunk) : Prop where
  body : ∀ line ∈ hunk.body, BodyLine line
  safe : IsSafeInteger hunk.oldStart ∧ IsSafeInteger hunk.oldCount
  unbroken : '\n' ∉ hunk.heading

structure Shaped (hunk : ParsedHunk) : Prop extends Reading hunk where
  oldCount : oldLines hunk.body = hunk.oldCount
  newCount : newLines hunk.body = hunk.newCount

/-- A line the parser takes for part of the preamble. -/
structure PreambleLine (line : Line) : Prop where
  header : hunkHeader line = none
  unbroken : '\n' ∉ line

theorem BodyLine.parse {line : Line} (h : BodyLine line) (lines preamble : List Line)
    (current : ParsedHunk) (earlier : List ParsedHunk) :
    parseLines (line :: lines) preamble (current :: earlier) =
      parseLines lines preamble ({ current with body := current.body ++ [line] } :: earlier) := by
  have hknown : ¬(¬Line.startsWith line " " ∧ ¬Line.startsWith line "+" ∧
      ¬Line.startsWith line "-" ∧ 0 < line.length) := by
    rintro ⟨hspace, hplus, hminus, hlength⟩
    rcases h.known with h | h | h | rfl
    · exact hspace h
    · exact hplus h
    · exact hminus h
    · exact absurd hlength (Nat.lt_irrefl 0)
  rw [parseLines, h.header]
  dsimp only
  rw [if_neg (by rw [h.marker]; decide), if_neg hknown]

theorem parseLines_body {body : List Line} (h : ∀ line ∈ body, BodyLine line)
    (lines preamble : List Line) (current : ParsedHunk) (earlier : List ParsedHunk) :
    parseLines (body ++ lines) preamble (current :: earlier) =
      parseLines lines preamble ({ current with body := current.body ++ body } :: earlier) := by
  induction body generalizing current with
  | nil => rw [List.nil_append, List.append_nil]
  | cons line body ih =>
    rw [List.forall_mem_cons] at h
    rw [List.cons_append, h.1.parse, ih h.2, List.append_assoc]
    rfl

theorem parseLines_preamble {preamble : List Line} (h : ∀ line ∈ preamble, PreambleLine line)
    (lines earlier : List Line) :
    parseLines (preamble ++ lines) earlier [] = parseLines lines (earlier ++ preamble) [] := by
  induction preamble generalizing earlier with
  | nil => rw [List.nil_append, List.append_nil]
  | cons line preamble ih =>
    rw [List.forall_mem_cons] at h
    rw [List.cons_append, parseLines, h.1.header]
    dsimp only
    rw [ih h.2, List.append_assoc]
    rfl

/-! ## Reading emitted hunks -/

/-- The line a hunk's new side starts at, `delta` lines on, is none below zero: a hunk that
only removes lines is numbered from zero on in any case. -/
def StartsAbove (hunk : ParsedHunk) (delta : Int) : Prop :=
  if hunk.oldCount = 0 then 0 ≤ hunk.oldStart + delta + 1
  else hunk.newCount = 0 ∨ 0 ≤ hunk.oldStart + delta

instance (hunk : ParsedHunk) (delta : Int) : Decidable (StartsAbove hunk delta) :=
  inferInstanceAs (Decidable (if hunk.oldCount = 0 then 0 ≤ hunk.oldStart + delta + 1
    else hunk.newCount = 0 ∨ 0 ≤ hunk.oldStart + delta))

def Numbered : List ParsedHunk → Int → Prop
  | [], _ => True
  | hunk :: hunks, delta =>
    StartsAbove hunk delta ∧ Numbered hunks (delta + (hunk.newCount - hunk.oldCount))

instance decideNumbered : (hunks : List ParsedHunk) → (delta : Int) →
    Decidable (Numbered hunks delta)
  | [], _ => inferInstanceAs (Decidable True)
  | hunk :: hunks, delta =>
    have := decideNumbered hunks (delta + (hunk.newCount - hunk.oldCount))
    inferInstanceAs (Decidable (_ ∧ _))

theorem startsAbove_iff (hunk : ParsedHunk) (delta : Int) :
    StartsAbove hunk delta ↔ 0 ≤ newStart hunk delta := by
  unfold StartsAbove newStart
  split
  · rfl
  · split <;> rename_i hnew
    · simp [hnew]
    · simp [hnew]

theorem startsAbove_first (hunk : ParsedHunk) : StartsAbove hunk 0 := by
  unfold StartsAbove
  split <;> omega

theorem emitHunks_cons (hunk : ParsedHunk) (hunks : List ParsedHunk) (delta : Int) :
    emitHunks (hunk :: hunks) delta =
      headerLine hunk.oldStart hunk.oldCount (newStart hunk delta) hunk.newCount hunk.heading ::
        (hunk.body ++ emitHunks hunks (delta + (hunk.newCount - hunk.oldCount))) := rfl

theorem parseLines_header {hunk : ParsedHunk} (h : Reading hunk) {delta : Int}
    (hs : StartsAbove hunk delta) (lines preamble : List Line) (earlier : List ParsedHunk) :
    parseLines (headerLine hunk.oldStart hunk.oldCount (newStart hunk delta) hunk.newCount
        hunk.heading :: (hunk.body ++ lines)) preamble earlier =
      parseLines lines preamble ({ hunk with newCount := 0 } :: earlier) := by
  obtain ⟨n, hn⟩ := Int.eq_ofNat_of_zero_le ((startsAbove_iff hunk delta).mp hs)
  rw [hn, parseLines.eq_def]
  dsimp only
  rw [hunkHeader_emitted]
  dsimp only
  rw [if_neg (by simp [h.safe]), parseLines_body h.body]
  rfl

/-- **Hunks are read back from what is emitted of them.** -/
theorem parseLines_emitHunks {hunks : List ParsedHunk} (h : ∀ hunk ∈ hunks, Reading hunk)
    {delta : Int} (hn : Numbered hunks delta) (preamble : List Line)
    (earlier : List ParsedHunk) :
    parseLines (emitHunks hunks delta) preamble earlier =
      some (preamble,
        (hunks.map fun hunk => { hunk with newCount := 0 }).reverse ++ earlier) := by
  induction hunks generalizing delta earlier with
  | nil => rfl
  | cons hunk hunks ih =>
    rw [List.forall_mem_cons] at h
    rw [emitHunks_cons, parseLines_header h.1 hn.1, ih h.2 hn.2, List.map_cons,
      List.reverse_cons, List.append_assoc]
    rfl

theorem parseLines_emitHunks_none {hunks : List ParsedHunk} (h : ∀ hunk ∈ hunks, Reading hunk)
    {delta : Int} (hn : ¬Numbered hunks delta) (preamble : List Line) (current : ParsedHunk)
    (earlier : List ParsedHunk) :
    parseLines (emitHunks hunks delta) preamble (current :: earlier) = none := by
  induction hunks generalizing delta current earlier with
  | nil => exact absurd trivial hn
  | cons hunk hunks ih =>
    rw [List.forall_mem_cons] at h
    rw [emitHunks_cons]
    by_cases hs : StartsAbove hunk delta
    · rw [parseLines_header h.1 hs]
      exact ih h.2 (fun hrest => hn ⟨hs, hrest⟩) _ _
    · rw [startsAbove_iff] at hs
      obtain ⟨n, hneg⟩ := Int.eq_negSucc_of_lt_zero (Int.not_le.mp hs)
      rw [hneg, parseLines, hunkHeader_negative, headerLine_eq]
      rfl

theorem parseLines_emitted {hunks : List ParsedHunk} (h : ∀ hunk ∈ hunks, Reading hunk)
    (hne : hunks ≠ []) (preamble : List Line) :
    parseLines (emitHunks hunks 0) preamble [] =
      if Numbered hunks 0 then
        some (preamble, (hunks.map fun hunk => { hunk with newCount := 0 }).reverse)
      else none := by
  split
  · rename_i hn
    rw [parseLines_emitHunks h hn, List.append_nil]
  · rename_i hn
    cases hunks with
    | nil => exact absurd rfl hne
    | cons hunk rest =>
      rw [List.forall_mem_cons] at h
      rw [emitHunks_cons, parseLines_header h.1 (startsAbove_first hunk)]
      exact parseLines_emitHunks_none h.2 (fun hrest => hn ⟨startsAbove_first hunk, hrest⟩) _ _ _

theorem checkHunk_shaped {hunk : ParsedHunk} (h : Shaped hunk) :
    checkHunk { hunk with newCount := 0 } = some hunk := by
  unfold checkHunk
  rw [if_neg (not_not.mpr h.oldCount)]
  dsimp only
  rw [h.newCount]

theorem mapM_checkHunk {hunks : List ParsedHunk} (h : ∀ hunk ∈ hunks, Shaped hunk) :
    (hunks.map fun hunk => { hunk with newCount := 0 }).mapM checkHunk = some hunks := by
  induction hunks with
  | nil => rfl
  | cons hunk hunks ih =>
    rw [List.forall_mem_cons] at h
    rw [List.map_cons, List.mapM_cons, checkHunk_shaped h.1, ih h.2]
    rfl

/-! ## Lines and text -/

theorem intercalate_snoc {α : Type} (sep : α) (init : List (List α)) (last : List α) :
    [sep].intercalate (init ++ [last]) =
      (if init = [] then [] else [sep].intercalate init ++ [sep]) ++ last := by
  induction init with
  | nil => simp
  | cons segment init ih =>
    cases init with
    | nil => simp
    | cons next init =>
      rw [List.cons_append, List.intercalate_cons_of_ne_nil (by simp), ih,
        List.intercalate_cons_of_ne_nil (List.cons_ne_nil _ _)]
      simp

/-- The lines as text, with a line break behind them or without. -/
def patchText (lines : List Line) (trailingNewline : Bool) : String :=
  if trailingNewline then joinLines lines ++ "\n" else joinLines lines

theorem emitPatch_eq (parsed : ParsedPatch) (hunks : List ParsedHunk) :
    emitPatch parsed hunks =
      patchText (parsed.preamble ++ emitHunks hunks 0) parsed.trailingNewline := rfl

variable {lines : List Line} {read : List Line × List ParsedHunk}

theorem joinLines_getLast (hbreak : ∀ line ∈ lines, '\n' ∉ line) (hne : lines ≠ []) :
    (joinLines lines).toList.getLast? = some '\n' ↔
      lines.getLast? = some [] ∧ lines ≠ [[]] := by
  obtain ⟨init, last, rfl⟩ := (List.eq_nil_or_concat' lines).resolve_left hne
  rw [joinLines, String.toList_ofList, intercalate_snoc]
  simp only [List.getLast?_append, List.getLast?_singleton, Option.some_or, Option.some.injEq]
  cases last with
  | nil =>
    by_cases hinit : init = []
    · subst hinit
      simp
    · rw [if_neg hinit]
      simp [hinit]
  | cons c last =>
    have hlast : (c :: last).getLast? = some ((c :: last).getLast (List.cons_ne_nil _ _)) :=
      List.getLast?_eq_some_getLast _
    rw [hlast, Option.some_or]
    constructor
    · intro h
      have hmem := List.getLast_mem (List.cons_ne_nil c last)
      rw [Option.some.inj h] at hmem
      exact absurd hmem (hbreak _ (List.mem_append_right _ (List.mem_singleton.mpr rfl)))
    · rintro ⟨h, -⟩
      cases h

theorem splitLines_joinLines (hbreak : ∀ line ∈ lines, '\n' ∉ line) (hne : lines ≠ []) :
    splitLines (joinLines lines) = lines := by
  rw [splitLines, joinLines, String.toList_ofList, List.splitOn_intercalate '\n' hbreak hne]

theorem parseUnifiedPatch_text {trailingNewline : Bool} (hbreak : ∀ line ∈ lines, '\n' ∉ line)
    (hne : lines ≠ []) (hlast : trailingNewline = false → lines.getLast? ≠ some []) :
    parseUnifiedPatch (patchText lines trailingNewline) =
      match parseLines lines [] [] with
      | none => none
      | some (_, []) => none
      | some (preamble, hunks) =>
        (hunks.reverse.mapM checkHunk).map fun hunks => ⟨preamble, hunks, trailingNewline⟩ := by
  have hsplit : ([('\n' : Char)].intercalate lines).splitOn '\n' = lines :=
    List.splitOn_intercalate '\n' hbreak hne
  unfold parseUnifiedPatch patchText
  cases trailingNewline with
  | true =>
    have hend : (joinLines lines ++ "\n").toList = [('\n' : Char)].intercalate lines ++ ['\n'] := by
      rw [String.toList_append, joinLines, String.toList_ofList]
      rfl
    simp only [if_true, hend, List.getLast?_append, List.getLast?_singleton, Option.some_or,
      decide_true, List.dropLast_concat, hsplit]
    rcases parseLines lines [] [] with _ | ⟨preamble, _ | ⟨hunk, hunks⟩⟩
    · rfl
    · rfl
    · dsimp only
      cases (hunk :: hunks).reverse.mapM checkHunk with
      | none => rfl
      | some hunks => rfl
  | false =>
    have hend : ¬(joinLines lines).toList.getLast? = some '\n' :=
      fun h => hlast rfl ((joinLines_getLast hbreak hne).mp h).1
    simp only [Bool.false_eq_true, if_false, hend, decide_false,
      splitLines_joinLines hbreak hne]
    rcases parseLines lines [] [] with _ | ⟨preamble, _ | ⟨hunk, hunks⟩⟩
    · rfl
    · rfl
    · dsimp only
      cases (hunk :: hunks).reverse.mapM checkHunk with
      | none => rfl
      | some hunks => rfl

/-! ## parse after emit -/

structure ShapedPatch (parsed : ParsedPatch) : Prop where
  preamble : ∀ line ∈ parsed.preamble, PreambleLine line
  hunks : ∀ hunk ∈ parsed.hunks, Shaped hunk

/-- The last line is not a blank one of a hunk's body. -/
def EndsPlain (hunks : List ParsedHunk) : Prop :=
  ∀ last ∈ hunks.getLast?, last.body.getLast? ≠ some []

/-- The hunks can be told from their text: no new side is negative, and the text does not end
in a blank line that is taken for its last line break. -/
structure Emittable (parsed : ParsedPatch) (hunks : List ParsedHunk) : Prop where
  numbered : Numbered hunks 0
  ended : parsed.trailingNewline = false → EndsPlain hunks

theorem emitHunks_ne_nil {hunks : List ParsedHunk} (h : hunks ≠ []) (delta : Int) :
    emitHunks hunks delta ≠ [] := by
  cases hunks with
  | nil => exact absurd rfl h
  | cons hunk hunks => exact List.cons_ne_nil _ _

theorem headerLine_ne_nil (oldStart oldCount : Nat) (newStart : Int) (newCount : Nat)
    (heading : Line) : headerLine oldStart oldCount newStart newCount heading ≠ [] := by
  rw [headerLine_eq]
  exact List.cons_ne_nil _ _

theorem emitHunks_getLast (hunks : List ParsedHunk) (delta : Int) :
    (emitHunks hunks delta).getLast? = some [] ↔ ¬EndsPlain hunks := by
  unfold EndsPlain
  induction hunks generalizing delta with
  | nil => simp [emitHunks]
  | cons hunk hunks ih =>
    rw [emitHunks_cons, List.getLast?_cons, List.getLast?_append]
    cases hunks with
    | nil =>
      cases hbody : hunk.body.getLast? with
      | none =>
        simp [emitHunks, hbody, headerLine_ne_nil]
      | some line => simp [emitHunks, hbody]
    | cons next hunks =>
      have hrest := emitHunks_ne_nil (List.cons_ne_nil next hunks)
        (delta + (hunk.newCount - hunk.oldCount))
      obtain ⟨line, hline⟩ := Option.isSome_iff_exists.mp (List.getLast?_isSome.mpr hrest)
      rw [List.getLast?_cons_cons, ← ih (delta + (hunk.newCount - hunk.oldCount)), hline]
      simp

theorem emitHunks_unbroken {hunks : List ParsedHunk} (h : ∀ hunk ∈ hunks, Reading hunk)
    (delta : Int) : ∀ line ∈ emitHunks hunks delta, '\n' ∉ line := by
  induction hunks generalizing delta with
  | nil => nofun
  | cons hunk hunks ih =>
    rw [List.forall_mem_cons] at h
    rw [emitHunks_cons]
    intro line hline
    rcases List.mem_cons.mp hline with rfl | hline
    · have hnat (n : Nat) : '\n' ∉ (toString n).toList := by
        rw [Nat.toString_eq_repr, Nat.toList_repr]
        intro hmem
        cases Nat.isDigit_of_mem_toDigits (by decide) (by decide) hmem
      have hint (n : Int) : '\n' ∉ (toString n).toList := by
        cases n with
        | ofNat n => exact hnat n
        | negSucc n =>
          have hneg : toString (Int.negSucc n) = "-" ++ toString (n + 1) := rfl
          rw [hneg, String.toList_append, List.mem_append, not_or]
          exact ⟨by decide, hnat _⟩
      rw [headerLine_eq]
      simp only [List.mem_append, List.mem_cons, not_or]
      exact ⟨by decide, hnat _, by decide, hnat _, by decide, hint _, by decide, hnat _, by decide,
        h.1.unbroken⟩
    · rcases List.mem_append.mp hline with hline | hline
      · exact (h.1.body line hline).unbroken
      · exact ih h.2 _ line hline

theorem parse_trailingNewline {patch : String} {parsed : ParsedPatch}
    (h : parseUnifiedPatch patch = some parsed) :
    parsed.trailingNewline = decide (patch.toList.getLast? = some '\n') := by
  unfold parseUnifiedPatch at h
  dsimp only at h
  split at h
  · cases h
  · cases h
  · obtain ⟨hunks, -, h⟩ := Option.bind_eq_some_iff.mp h
    obtain rfl := Option.some.inj h
    rfl

theorem emitted_unbroken {parsed : ParsedPatch} {hunks : List ParsedHunk}
    (hp : ∀ line ∈ parsed.preamble, PreambleLine line) (h : ∀ hunk ∈ hunks, Reading hunk) :
    ∀ line ∈ parsed.preamble ++ emitHunks hunks 0, '\n' ∉ line := by
  intro line hline
  rcases List.mem_append.mp hline with hline | hline
  · exact (hp line hline).unbroken
  · exact emitHunks_unbroken h 0 line hline

/-- **An emittable selection of hunks is read back from its text.** -/
theorem parse_emitPatch {parsed : ParsedPatch} {hunks : List ParsedHunk}
    (hp : ∀ line ∈ parsed.preamble, PreambleLine line) (h : ∀ hunk ∈ hunks, Shaped hunk)
    (hne : hunks ≠ []) (he : Emittable parsed hunks) :
    parseUnifiedPatch (emitPatch parsed hunks) = some { parsed with hunks } := by
  have hreading : ∀ hunk ∈ hunks, Reading hunk := fun hunk hhunk => (h hunk hhunk).toReading
  have hlast : parsed.trailingNewline = false →
      (parsed.preamble ++ emitHunks hunks 0).getLast? ≠ some [] := by
    intro ht hlast
    rw [List.getLast?_append_of_ne_nil _ (emitHunks_ne_nil hne 0), emitHunks_getLast] at hlast
    exact hlast (he.ended ht)
  rw [emitPatch_eq, parseUnifiedPatch_text (emitted_unbroken hp hreading)
    (List.append_ne_nil_of_right_ne_nil _ (emitHunks_ne_nil hne 0)) hlast,
    parseLines_preamble hp, parseLines_emitted hreading hne, if_pos he.numbered]
  have hmap := mapM_checkHunk h
  cases hreverse : (hunks.map fun hunk => { hunk with newCount := 0 }).reverse with
  | nil =>
    rw [List.reverse_eq_nil_iff, List.map_eq_nil_iff] at hreverse
    exact absurd hreverse hne
  | cons last rest =>
    dsimp only
    rw [← hreverse, List.reverse_reverse, hmap]
    rfl

theorem emitHunks_blank (init : List ParsedHunk) (last : ParsedHunk) {body : List Line}
    (hbody : last.body = body ++ [[]]) (delta : Int) :
    emitHunks (init ++ [last]) delta = emitHunks (init ++ [{ last with body }]) delta ++ [[]] := by
  induction init generalizing delta with
  | nil => simp [emitHunks, newStart, hbody]
  | cons hunk init ih =>
    rw [List.cons_append, List.cons_append, emitHunks_cons, emitHunks_cons, ih]
    simp

theorem mapM_concat_none {α β : Type} {f : α → Option β} (xs : List α) {last : α}
    (h : f last = none) : (xs ++ [last]).mapM f = none := by
  induction xs with
  | nil => rw [List.nil_append, List.mapM_cons, h]; rfl
  | cons x xs ih => rw [List.cons_append, List.mapM_cons, ih]; cases f x <;> rfl

theorem oldLines_append (first second : List Line) :
    oldLines (first ++ second) = oldLines first + oldLines second := by
  simp [oldLines]

/-- **Any other selection is not read at all.** -/
theorem parse_emitPatch_none {parsed : ParsedPatch} {hunks : List ParsedHunk}
    (hp : ∀ line ∈ parsed.preamble, PreambleLine line) (h : ∀ hunk ∈ hunks, Shaped hunk)
    (hne : hunks ≠ []) (he : ¬Emittable parsed hunks) :
    parseUnifiedPatch (emitPatch parsed hunks) = none := by
  by_cases hplain : parsed.trailingNewline = false → EndsPlain hunks
  · -- the text is read line by line, up to the negative start
    have hreading : ∀ hunk ∈ hunks, Reading hunk := fun hunk hhunk => (h hunk hhunk).toReading
    have hlast : parsed.trailingNewline = false →
        (parsed.preamble ++ emitHunks hunks 0).getLast? ≠ some [] := by
      intro ht hlast
      rw [List.getLast?_append_of_ne_nil _ (emitHunks_ne_nil hne 0), emitHunks_getLast] at hlast
      exact hlast (hplain ht)
    rw [emitPatch_eq, parseUnifiedPatch_text (emitted_unbroken hp hreading)
      (List.append_ne_nil_of_right_ne_nil _ (emitHunks_ne_nil hne 0)) hlast,
      parseLines_preamble hp, parseLines_emitted hreading hne,
      if_neg (fun hn => he ⟨hn, hplain⟩)]
  · -- the last blank line is taken for the line break, and the body is a line short
    obtain ⟨ht, hplain⟩ := Classical.not_imp.mp hplain
    obtain ⟨init, last, rfl⟩ := (List.eq_nil_or_concat' hunks).resolve_left hne
    have hblank : last.body.getLast? = some [] := by
      by_contra hblank
      refine hplain fun other hother => ?_
      rw [List.getLast?_concat] at hother
      obtain rfl := Option.some.inj hother
      exact hblank
    obtain ⟨body, hbody⟩ := List.getLast?_eq_some_iff.mp hblank
    have hshaped := h last (List.mem_append_right _ (List.mem_singleton.mpr rfl))
    have hreading : ∀ hunk ∈ init ++ [{ last with body }], Reading hunk := by
      intro hunk hhunk
      rcases List.mem_append.mp hhunk with hhunk | hhunk
      · exact (h hunk (List.mem_append_left _ hhunk)).toReading
      · obtain rfl := List.mem_singleton.mp hhunk
        exact ⟨fun line hline => hshaped.body line (hbody ▸ List.mem_append_left _ hline),
          hshaped.safe, hshaped.unbroken⟩
    have hsome : init ++ [{ last with body }] ≠ [] := List.concat_ne_nil _ _
    have hlines : parsed.preamble ++ emitHunks (init ++ [{ last with body }]) 0 ≠ [] :=
      List.append_ne_nil_of_right_ne_nil _ (emitHunks_ne_nil hsome 0)
    have htext : emitPatch parsed (init ++ [last]) =
        patchText (parsed.preamble ++ emitHunks (init ++ [{ last with body }]) 0) true := by
      rw [emitPatch_eq, ht, emitHunks_blank init last hbody, ← List.append_assoc]
      simp only [patchText, joinLines, intercalate_snoc, hlines, Bool.false_eq_true, if_false,
        if_true, List.append_nil, String.ofList_append]
    rw [htext, parseUnifiedPatch_text (emitted_unbroken hp hreading) hlines (by simp),
      parseLines_preamble hp, parseLines_emitted hreading hsome]
    split
    · rename_i heq
      rfl
    · rfl
    · rename_i preamble raw hraw heq
      split at heq
      · obtain ⟨-, rfl⟩ := Prod.mk.inj (Option.some.inj heq)
        have hcount := hshaped.oldCount
        rw [hbody, oldLines_append] at hcount
        have hshort : checkHunk { last with body, newCount := 0 } = none := by
          unfold checkHunk
          rw [if_pos]
          intro heq
          rw [← hcount] at heq
          exact absurd heq (Nat.ne_of_lt (Nat.lt_succ_self _))
        rw [List.reverse_reverse, List.map_append]
        exact congrArg _ (mapM_concat_none _ hshort)
      · cases heq

/-- **A selection of hunks is read back from its text exactly when it is emittable.** -/
theorem parse_emitPatch_iff {parsed : ParsedPatch} {hunks : List ParsedHunk}
    (hp : ∀ line ∈ parsed.preamble, PreambleLine line) (h : ∀ hunk ∈ hunks, Shaped hunk)
    (hne : hunks ≠ []) :
    (∃ other, parseUnifiedPatch (emitPatch parsed hunks) = some other ∧ other.hunks = hunks) ↔
      Emittable parsed hunks := by
  constructor
  · rintro ⟨other, hother, -⟩
    by_contra he
    rw [parse_emitPatch_none hp h hne he] at hother
    cases hother
  · intro he
    exact ⟨_, parse_emitPatch hp h hne he, rfl⟩

/-! ## What was parsed -/

theorem dropPrefix?_suffix {head line rest : Line} (h : line.dropPrefix? head = some rest) :
    rest <:+ line := by
  induction head generalizing line with
  | nil =>
    cases line <;> exact Option.some.inj h ▸ List.suffix_refl _
  | cons c head ih =>
    cases line with
    | nil => cases h
    | cons d line =>
      rw [List.dropPrefix?] at h
      split at h
      · exact (ih h).trans (List.suffix_cons _ _)
      · cases h

theorem number_suffix {line rest : Line} {n : Nat} (h : number line = some (n, rest)) :
    rest <:+ line := by
  unfold number at h
  split at h
  · cases h
  · obtain rfl := (Prod.mk.inj (Option.some.inj h)).2
    exact List.dropWhile_suffix _

theorem optionalCount_suffix (line : Line) : (optionalCount line).2 <:+ line := by
  unfold optionalCount
  split
  · rename_i rest
    split
    · rename_i hn
      exact (number_suffix hn).trans (List.suffix_cons _ _)
    · exact List.suffix_refl _
  · exact List.suffix_refl _

theorem heading_suffix {line : Line} {header : HunkHeader} (h : hunkHeader line = some header) :
    header.heading <:+ line := by
  unfold hunkHeader at h
  obtain ⟨afterDash, hdash, h⟩ := Option.bind_eq_some_iff.mp h
  obtain ⟨⟨oldStart, afterStart⟩, hstart, h⟩ := Option.bind_eq_some_iff.mp h
  obtain ⟨afterPlus, hplus, h⟩ := Option.bind_eq_some_iff.mp h
  obtain ⟨⟨newStart, afterNew⟩, hnew, h⟩ := Option.bind_eq_some_iff.mp h
  obtain ⟨heading, hheading, h⟩ := Option.bind_eq_some_iff.mp h
  obtain rfl := Option.some.inj h
  have hnumbers : heading <:+ afterPlus :=
    ((dropPrefix?_suffix hheading).trans (optionalCount_suffix _)).trans (number_suffix hnew)
  have hold : heading <:+ afterDash :=
    ((hnumbers.trans (dropPrefix?_suffix hplus)).trans (optionalCount_suffix _)).trans
      (number_suffix hstart)
  exact hold.trans (dropPrefix?_suffix hdash)

theorem parseLines_reading {lines preamble : List Line} {hunks : List ParsedHunk}
    (hbreak : ∀ line ∈ lines, '\n' ∉ line) (hp : ∀ line ∈ preamble, PreambleLine line)
    (hh : ∀ hunk ∈ hunks, Reading hunk) (h : parseLines lines preamble hunks = some read) :
    (∀ line ∈ read.1, PreambleLine line) ∧ ∀ hunk ∈ read.2, Reading hunk := by
  induction lines generalizing preamble hunks with
  | nil =>
    rw [parseLines.eq_def] at h
    obtain rfl := Option.some.inj h
    exact ⟨hp, hh⟩
  | cons line lines ih =>
    rw [List.forall_mem_cons] at hbreak
    rw [parseLines.eq_def] at h
    dsimp only at h
    split at h
    · rename_i header hheader
      split at h
      · cases h
      · rename_i hsafe
        rw [not_or, not_not, not_not] at hsafe
        have hnew : Reading
            ⟨header.oldStart, header.oldLines.getD 1, 0, header.heading, []⟩ :=
          ⟨by simp, hsafe, fun hmem => hbreak.1 ((heading_suffix hheader).subset hmem)⟩
        exact ih hbreak.2 hp (List.forall_mem_cons.mpr ⟨hnew, hh⟩) h
    · rename_i hheader
      split at h
      · refine ih hbreak.2 ?_ (by simp) h
        intro other hother
        rcases List.mem_append.mp hother with hother | hother
        · exact hp other hother
        · obtain rfl := List.mem_singleton.mp hother
          exact ⟨hheader, hbreak.1⟩
      · rename_i current earlier
        rw [List.forall_mem_cons] at hh
        split at h
        · cases h
        · rename_i hmarker
          split at h
          · cases h
          · rename_i hknown
            have hline : BodyLine line := by
              refine ⟨hheader, by simpa using hmarker, ?_, hbreak.1⟩
              by_contra hnone
              simp only [not_or] at hnone
              exact hknown ⟨hnone.1, hnone.2.1, hnone.2.2.1,
                List.length_pos_of_ne_nil hnone.2.2.2⟩
            have hnext : Reading { current with body := current.body ++ [line] } := by
              refine ⟨?_, hh.1.safe, hh.1.unbroken⟩
              intro other hother
              rcases List.mem_append.mp hother with hother | hother
              · exact hh.1.body other hother
              · obtain rfl := List.mem_singleton.mp hother
                exact hline
            exact ih hbreak.2 hp (List.forall_mem_cons.mpr ⟨hnext, hh.2⟩) h

theorem parseLines_getLast {lines preamble : List Line} {hunks : List ParsedHunk}
    (h : parseLines lines preamble hunks = some read) (hne : lines ≠ []) {current : ParsedHunk}
    (hcurrent : read.2.head? = some current) {line : Line}
    (hline : current.body.getLast? = some line) : lines.getLast? = some line := by
  induction lines generalizing preamble hunks with
  | nil => exact absurd rfl hne
  | cons first lines ih =>
    cases lines with
    | nil =>
      rw [parseLines.eq_def] at h
      dsimp only at h
      split at h
      · split at h
        · cases h
        · rw [parseLines.eq_def] at h
          obtain rfl := Option.some.inj h
          obtain rfl := Option.some.inj hcurrent
          cases hline
      · split at h
        · rw [parseLines.eq_def] at h
          obtain rfl := Option.some.inj h
          cases hcurrent
        · split at h
          · cases h
          · split at h
            · cases h
            · rw [parseLines.eq_def] at h
              obtain rfl := Option.some.inj h
              obtain rfl := Option.some.inj hcurrent
              rw [List.getLast?_concat] at hline
              exact hline
    | cons second lines =>
      rw [List.getLast?_cons_cons]
      rw [parseLines.eq_def] at h
      dsimp only at h
      split at h
      · split at h
        · cases h
        · exact ih h (List.cons_ne_nil _ _)
      · split at h
        · exact ih h (List.cons_ne_nil _ _)
        · split at h
          · cases h
          · split at h
            · cases h
            · exact ih h (List.cons_ne_nil _ _)

theorem Reading.shaped {hunk checked : ParsedHunk} (h : Reading hunk)
    (hcheck : checkHunk hunk = some checked) : Shaped checked := by
  unfold checkHunk at hcheck
  split at hcheck
  · cases hcheck
  · rename_i hcount
    obtain rfl := Option.some.inj hcheck
    exact ⟨⟨h.body, h.safe, h.unbroken⟩, not_not.mp hcount, rfl⟩

theorem mapM_checkHunk_body {hunks checked : List ParsedHunk}
    (h : hunks.mapM checkHunk = some checked) :
    List.Forall₂ (fun hunk checked => checkHunk hunk = some checked) hunks checked := by
  induction hunks generalizing checked with
  | nil =>
    obtain rfl := Option.some.inj h
    exact .nil
  | cons hunk hunks ih =>
    rw [List.mapM_cons] at h
    obtain ⟨first, hfirst, h⟩ := Option.bind_eq_some_iff.mp h
    obtain ⟨rest, hrest, h⟩ := Option.bind_eq_some_iff.mp h
    obtain rfl := Option.some.inj h
    exact .cons hfirst (ih hrest)

theorem not_mem_of_mem_splitOn {α : Type} [BEq α] [LawfulBEq α] {sep : α} {xs segment : List α}
    (h : segment ∈ xs.splitOn sep) : sep ∉ segment := by
  induction xs generalizing segment with
  | nil =>
    obtain rfl := List.mem_singleton.mp h
    exact List.not_mem_nil
  | cons x xs ih =>
    rw [List.splitOn_cons_eq_if_modifyHead] at h
    split at h
    · rcases List.mem_cons.mp h with rfl | h
      · exact List.not_mem_nil
      · exact ih h
    · rename_i hx
      rcases hs : xs.splitOn sep with _ | ⟨first, rest⟩
      · exact absurd hs (List.splitOn_ne_nil _ _)
      · rw [hs] at h ih
        rcases List.mem_cons.mp h with rfl | h
        · intro hmem
          rcases List.mem_cons.mp hmem with rfl | hmem
          · simp at hx
          · exact ih List.mem_cons_self hmem
        · exact ih (List.mem_cons_of_mem _ h)

/-- **What was parsed has the shape**, some hunk, and a plain end where the text has no last
line break. -/
theorem parseUnifiedPatch_shaped {patch : String} {parsed : ParsedPatch}
    (h : parseUnifiedPatch patch = some parsed) :
    ShapedPatch parsed ∧ parsed.hunks ≠ [] ∧
      (parsed.trailingNewline = false → EndsPlain parsed.hunks) := by
  have hflag := parse_trailingNewline h
  unfold parseUnifiedPatch at h
  dsimp only at h
  split at h
  · cases h
  · cases h
  rename_i preamble hunks hsome hread
  obtain ⟨checked, hchecked, h⟩ := Option.bind_eq_some_iff.mp h
  obtain rfl := Option.some.inj h
  have hpairs := mapM_checkHunk_body hchecked
  have hbreak : ∀ line ∈ (if patch.toList.getLast? = some '\n' then
      patch.toList.dropLast.splitOn '\n' else splitLines patch), '\n' ∉ line := by
    intro line hline
    split at hline <;> exact not_mem_of_mem_splitOn hline
  obtain ⟨hpreamble, hreading⟩ := parseLines_reading
    (by simpa using hbreak) (by simp) (by simp) hread
  have hshaped : ∀ hunk ∈ checked, Shaped hunk := by
    intro hunk hhunk
    obtain ⟨raw, hraw, hcheck⟩ := forall₂_mem hpairs.flip hhunk
    exact (hreading raw (List.mem_reverse.mp hraw)).shaped hcheck
  refine ⟨⟨hpreamble, hshaped⟩, ?_, ?_⟩
  · intro hnil
    obtain rfl : checked = [] := hnil
    have hlength := hpairs.length_eq
    rw [List.length_reverse] at hlength
    exact hsome (List.eq_nil_of_length_eq_zero hlength)
  · intro ht last hlast hblank
    have hend : ¬patch.toList.getLast? = some '\n' := by
      rw [hflag] at ht
      exact of_decide_eq_false ht
    simp only [hend, if_false] at hread
    cases hunks with
    | nil => exact hsome rfl
    | cons raw earlier =>
      -- the newest hunk read is the last one checked
      have hnewest := List.rel_reverse hpairs
      rw [List.reverse_reverse] at hnewest
      obtain ⟨newest, rest, hcheck, -, hreverse⟩ := List.forall₂_cons_left_iff.mp hnewest
      rw [← List.head?_reverse, hreverse] at hlast
      obtain rfl := Option.some.inj hlast
      have hbody : newest.body = raw.body := by
        unfold checkHunk at hcheck
        split at hcheck
        · cases hcheck
        · exact (Option.some.inj hcheck) ▸ rfl
      have hne : splitLines patch ≠ [] := List.splitOn_ne_nil _ _
      have hlines := parseLines_getLast hread hne rfl (hbody ▸ hblank)
      have htext : joinLines (splitLines patch) = patch := by
        rw [joinLines, splitLines, List.intercalate_splitOn, String.ofList_toList]
      have hsingle : splitLines patch = [[]] := by
        by_contra hsingle
        refine hend (htext ▸ (joinLines_getLast (fun _ => not_mem_of_mem_splitOn) hne).mpr
          ⟨hlines, hsingle⟩)
      rw [hsingle] at hread
      cases Option.some.inj hread

end AgenticGit.Repository
