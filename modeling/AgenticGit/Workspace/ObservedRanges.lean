import AgenticGit.Lib.Listings
import AgenticGit.Lib.OrderedMap
import AgenticGit.Repository.PatchText

/- The lines a working tree has changed: `parseUnifiedHunkRanges` and
   `parseNameStatusZ` of `workspace-manager/src/index.ts`.

   Correspondence (TypeScript ↔ Lean):
     the loop's `byPath` and `current`  ↔ `ReadState`; `current` is the key whose
       list it is
     `/^@@ -\d+(?:,\d+)? \+(\d+)(?:,(\d+))? @@/u` ↔ `newSide`
     git diff -U0 --no-renames          ↔ `diffOutput` of the files' differences
     git diff --name-status -z          ↔ `nameStatusOutput`

   What is proved: the listing of changes has every file that was printed, in its
   order (`parseNameStatusZ_printed`). The ranges read are those of the hunks below the headings of
   their path (`parseUnifiedHunkRanges_eq`), where a heading is a line that starts
   with `+++ ` and may be a line that was written; so they are the lines written
   exactly when no heading is refused and every path has, of the hunks below its
   headings, the lines of its own (`parseUnifiedHunkRanges_observes`); names that
   are printed as they are and lines that do not start with `++ ` give that
   (`headedTrue_of_plain`). A line that starts with `++ ` takes the hunks below it
   to the file it names (`parseUnifiedHunkRanges_misattributes`). -/
namespace AgenticGit.Workspace.Observed
open AgenticGit.Runtime AgenticGit.Shared AgenticGit.Listings
open AgenticGit.Repository (skip number optionalCount)

/-! ## The parsers -/

/-- The new side of a hunk header: its start, and its count where that is given. -/
def newSide (line : Line) : Option (Nat × Option Nat) := do
  let rest ← skip "@@ -" line
  let (_, rest) ← number rest
  let (_, rest) := optionalCount rest
  let rest ← skip " +" rest
  let (start, rest) ← number rest
  let (count, rest) := optionalCount rest
  let _ ← skip " @@" rest
  return (start, count)

def hunkRange (start count : Nat) : LineRange :=
  if count = 0 then ⟨max 1 start, max 1 start⟩ else ⟨start, start + count - 1⟩

structure ReadState where
  byPath : OrderedMap String (List LineRange)
  current : Option String

def ReadState.ranges (state : ReadState) (path : String) : List LineRange :=
  (state.byPath.get? path).getD []

/-- What a line that starts with `+++ ` names behind it: no file, or a path. -/
def readTarget (rest : Line) : Except PathError (Option String) :=
  let target := trimChars rest
  if target = "/dev/null".toList then .ok none
  else do
    let path ← normalizeRepositoryPath
      (String.ofList (if "b/".toList <+: target then target.drop 2 else target))
    return some path

def readLine (state : ReadState) (line : Line) : Except PathError ReadState :=
  if "+++ ".toList <+: line then do
    match ← readTarget (line.drop 4) with
    | none => return { state with current := none }
    | some path => return ⟨state.byPath.set path (state.ranges path), some path⟩
  else
    match state.current with
    | none => return state
    | some path =>
      if ¬ "@@".toList <+: line then return state
      else
        match newSide line with
        | none => return state
        | some (start, count) =>
          let range := hunkRange start (count.getD 1)
          return { state with byPath := state.byPath.set path (state.ranges path ++ [range]) }

structure FileRanges where
  path : String
  ranges : List LineRange
  deriving DecidableEq

def parseUnifiedHunkRanges [TextRuntime] (output : List Char) :
    Except PathError (List FileRanges) := do
  let state ← (output.splitOn '\n').foldlM readLine ⟨.empty, none⟩
  let entries := (state.byPath.entries.filter fun entry => 0 < entry.2.length).map
    fun entry => FileRanges.mk entry.1 entry.2
  return entries.insertionSort fun left right => localeCompare left.path right.path ≠ .gt

inductive StatusError where
  | unexpected
  | path (error : PathError)
  deriving DecidableEq

structure NameStatusEntry where
  code : List Char
  path : String
  deriving DecidableEq

def readEntries : List (List Char) → Except StatusError (List NameStatusEntry)
  | code :: changedPath :: fields => do
    if code.length = 0 then throw .unexpected
    let path ← (normalizeRepositoryPath (String.ofList changedPath)).mapError .path
    return ⟨code, path⟩ :: (← readEntries fields)
  | _ => return []

def parseNameStatusZ (output : List Char) : Except StatusError (List NameStatusEntry) :=
  let fields := output.splitOn '\x00'
  let fields := if fields.getLast? = some [] then fields.dropLast else fields
  if fields.length % 2 ≠ 0 then throw .unexpected else readEntries fields

/-! ## What git prints -/

/-- A hunk without context: its lines of the old side, then those of the new. -/
structure Hunk where
  oldStart : Nat
  newStart : Nat
  /-- What is printed behind the ranges. -/
  heading : Line
  removed : List Line
  added : List Line
  /-- Whether the old and the new side end here without a line break. -/
  oldUnended : Bool
  newUnended : Bool

/-- A side of a hunk header: the count is left out when it is one. -/
def printSide (start count : Nat) : List Char :=
  (toString start).toList ++ if count = 1 then [] else ',' :: (toString count).toList

def unendedLine (unended : Bool) : List Line :=
  if unended then ["\\ No newline at end of file".toList] else []

def Hunk.header (hunk : Hunk) : Line :=
  "@@ -".toList ++ (printSide hunk.oldStart hunk.removed.length ++ (" +".toList ++
    (printSide hunk.newStart hunk.added.length ++ (" @@".toList ++ hunk.heading))))

def Hunk.body (hunk : Hunk) : List Line :=
  hunk.removed.map ('-' :: ·) ++ unendedLine hunk.oldUnended ++
    (hunk.added.map ('+' :: ·) ++ unendedLine hunk.newUnended)

/-- The difference of one file, as it is printed: the lines that come before any
    text, and the hunks. -/
structure FileDiff where
  name : String
  status : List Char
  preamble : List Line
  /-- Whether the file is gone. -/
  deleted : Bool
  created : Bool
  hunks : List Hunk

/-- A name behind its side, with a tab behind it when it holds a blank. -/
def printName (side : String) (name : String) : Line :=
  let label := quoteName (side.toList ++ name.toList)
  label ++ if ' ' ∈ label then ['\t'] else []

def oldLabel (file : FileDiff) : Line :=
  if file.created then "/dev/null".toList else printName "a/" file.name

def newLabel (file : FileDiff) : Line :=
  if file.deleted then "/dev/null".toList else printName "b/" file.name

def FileDiff.lines (file : FileDiff) : List Line :=
  file.preamble ++
    if file.hunks = [] then []
    else ("--- ".toList ++ oldLabel file) :: ("+++ ".toList ++ newLabel file) ::
      file.hunks.flatMap fun hunk => hunk.header :: hunk.body

def diffOutput (files : List FileDiff) : List Char :=
  terminated '\n' (files.flatMap FileDiff.lines)

def nameStatusOutput (files : List FileDiff) : List Char :=
  terminated '\x00' (files.flatMap fun file => [file.status, file.name.toList])

def preambleWords : List String :=
  ["diff --git ", "old mode ", "new mode ", "deleted file mode ", "new file mode ", "index ",
    "Binary files "]

/-- A hunk as git prints it. -/
structure Hunk.Printed (hunk : Hunk) : Prop where
  heading : '\n' ∉ hunk.heading
  removed : ∀ line ∈ hunk.removed, '\n' ∉ line
  added : ∀ line ∈ hunk.added, '\n' ∉ line
  changes : hunk.removed ≠ [] ∨ hunk.added ≠ []

/-- A difference as git prints it. -/
structure FileDiff.Printed (file : FileDiff) : Prop where
  name : '\x00' ∉ file.name.toList
  status : file.status ≠ [] ∧ '\x00' ∉ file.status
  preamble : ∀ line ∈ file.preamble,
    '\n' ∉ line ∧ ∃ word ∈ preambleWords, word.toList <+: line
  hunks : ∀ hunk ∈ file.hunks, hunk.Printed

/-! ## What was written -/

def Hunk.range (hunk : Hunk) : LineRange := hunkRange hunk.newStart hunk.added.length

/-- The lines of the new side that a hunk adds or changes, or the one it closed over. -/
def Hunk.Wrote (hunk : Hunk) (line : Int) : Prop :=
  if hunk.added = [] then line = max 1 (hunk.newStart : Int)
  else hunk.newStart ≤ line ∧ line < hunk.newStart + hunk.added.length

/-- A file that is still there, under the name the listing of changes has for it. -/
def FileDiff.Reported (file : FileDiff) (path : String) : Prop :=
  file.deleted = false ∧ normalizeRepositoryPath file.name = .ok path

def Wrote (files : List FileDiff) (path : String) (line : Int) : Prop :=
  ∃ file ∈ files, file.Reported path ∧ ∃ hunk ∈ file.hunks, hunk.Wrote line

/-- The ranges are of the lines written: each file that has hunks and is still
    there is listed once under its name, with its lines. -/
structure Observes (files : List FileDiff) (result : List FileRanges) : Prop where
  once : (result.map FileRanges.path).Nodup
  listed : ∀ path, path ∈ result.map FileRanges.path ↔
    ∃ file ∈ files, file.Reported path ∧ file.hunks ≠ []
  lines : ∀ path line, (∃ entry ∈ result, entry.path = path ∧
    ∃ range ∈ entry.ranges, range.Mem line) ↔ Wrote files path line

theorem Hunk.mem_range {hunk : Hunk} {line : Int} : hunk.range.Mem line ↔ hunk.Wrote line := by
  rw [Hunk.range, hunkRange, Hunk.Wrote, LineRange.Mem]
  by_cases h : hunk.added = []
  · rw [if_pos h, if_pos (by rw [h]; rfl)]
    exact ⟨fun hmem => le_antisymm hmem.2 hmem.1, fun heq => ⟨heq.ge, heq.le⟩⟩
  · have hlength : hunk.added.length ≠ 0 := fun hzero => h (List.length_eq_zero_iff.1 hzero)
    rw [if_neg h, if_neg hlength]
    exact and_congr_right fun _ => Int.le_sub_one_iff

theorem Hunk.exists_wrote (hunk : Hunk) : ∃ line, hunk.Wrote line := by
  rw [← exists_congr fun line => hunk.mem_range]
  have hrange : hunk.range.startLine ≤ hunk.range.endLine := by
    rw [Hunk.range, hunkRange]
    split
    · exact le_refl _
    · dsimp only
      omega
  exact ⟨_, le_refl _, hrange⟩

/-! ## The headings -/

def Legible (rest : Line) : Prop := ∃ named, readTarget rest = .ok named

/-- The path that the hunks below a heading are taken to be of. -/
def heads (rest : Line) : Option String :=
  match readTarget rest with
  | .ok named => named
  | .error _ => none

/-- The heading below the lines of a hunk: a line written may be one. -/
def headingBehind (current : Option String) (hunk : Hunk) : Option String :=
  hunk.added.foldl
    (fun current line => if "++ ".toList <+: line then heads (line.drop 3) else current) current

def headed (current : Option String) : List Hunk → List (Option String × Hunk)
  | [] => []
  | hunk :: hunks => (current, hunk) :: headed (headingBehind current hunk) hunks

/-- The hunks, each with what is named by the last heading above it. -/
def headings (files : List FileDiff) : List (Option String × Hunk) :=
  files.flatMap fun file => headed (heads (newLabel file)) file.hunks

structure AllLegible (files : List FileDiff) : Prop where
  names : ∀ file ∈ files, file.hunks ≠ [] → Legible (newLabel file)
  written : ∀ file ∈ files, ∀ hunk ∈ file.hunks, ∀ line ∈ hunk.added,
    "++ ".toList <+: line → Legible (line.drop 3)

/-- No heading is refused, and below the headings of each path are the lines of its own hunks. -/
structure HeadedTrue (files : List FileDiff) : Prop extends AllLegible files where
  own : ∀ path line, (∃ pair ∈ headings files, pair.1 = some path ∧ pair.2.Wrote line) ↔
    Wrote files path line

/-! ## The headers -/

theorem printSide_head {start count : Nat} {rest : Line} {c : Char} (hc : c.isDigit = false)
    (hcomma : c ≠ ',') :
    ∃ behind, number (printSide start count ++ c :: rest) = some (start, behind) ∧
      ∃ read, optionalCount behind = (read, c :: rest) ∧ read.getD 1 = count := by
  have hstop : ∀ d ∈ (c :: rest).head?, d.isDigit = false := by
    intro d hd
    obtain rfl := Option.some.inj hd
    exact hc
  rw [printSide]
  by_cases hone : count = 1
  · rw [if_pos hone, List.append_nil]
    refine ⟨_, Repository.number_digits start hstop, none, ?_, hone.symm⟩
    unfold optionalCount
    split
    · rename_i heq
      exact absurd (List.cons.inj heq).1 hcomma
    · rfl
  · rw [if_neg hone, List.append_assoc, List.cons_append]
    refine ⟨_, Repository.number_digits start (Repository.comma_head _), some count, ?_, rfl⟩
    exact Repository.optionalCount_digits count hstop

/-- **The new side of a header is read back.** -/
theorem newSide_header (hunk : Hunk) :
    ∃ count, newSide hunk.header = some (hunk.newStart, count) ∧
      count.getD 1 = hunk.added.length := by
  obtain ⟨behindOld, hold, readOld, holdCount, -⟩ :=
    @printSide_head hunk.oldStart hunk.removed.length
      ('+' :: (printSide hunk.newStart hunk.added.length ++ (" @@".toList ++ hunk.heading))) ' '
      rfl (by decide)
  obtain ⟨behindNew, hnew, readNew, hnewCount, hcount⟩ :=
    @printSide_head hunk.newStart hunk.added.length ('@' :: '@' :: hunk.heading) ' ' rfl
      (by decide)
  refine ⟨readNew, ?_, hcount⟩
  have hheader : hunk.header = "@@ -".toList ++ (printSide hunk.oldStart hunk.removed.length ++
      ' ' :: '+' :: (printSide hunk.newStart hunk.added.length ++
        (" @@".toList ++ hunk.heading))) := rfl
  have hplus : skip " +" (' ' :: '+' :: (printSide hunk.newStart hunk.added.length ++
      (" @@".toList ++ hunk.heading))) =
        some (printSide hunk.newStart hunk.added.length ++ ' ' :: '@' :: '@' :: hunk.heading) :=
    Repository.skip_append " +" _
  have hclose : skip " @@" (' ' :: '@' :: '@' :: hunk.heading) = some hunk.heading :=
    Repository.skip_append " @@" _
  rw [newSide, hheader, Repository.skip_append, Option.bind_eq_bind, Option.bind_some, hold]
  simp only [Option.bind_eq_bind, Option.bind_some, holdCount, hplus, hnew, hnewCount, hclose,
    Option.pure_def]

/-! ## Lines -/

theorem readLine_heading {state : ReadState} {rest : Line} (h : Legible rest) :
    ∃ state', readLine state ("+++ ".toList ++ rest) = .ok state' ∧
      state'.current = heads rest ∧ ∀ path, state'.ranges path = state.ranges path := by
  obtain ⟨named, hnamed⟩ := h
  have hdrop : ("+++ ".toList ++ rest).drop 4 = rest := rfl
  rw [readLine, if_pos (List.prefix_append _ _), hdrop, heads, hnamed]
  cases named with
  | none => exact ⟨_, rfl, rfl, fun _ => rfl⟩
  | some named =>
    refine ⟨_, rfl, rfl, fun path => ?_⟩
    rw [ReadState.ranges, OrderedMap.get?_set]
    split
    · rename_i heq
      rw [heq]
      rfl
    · rfl

theorem readLine_refused {state : ReadState} {rest : Line} (h : ¬ Legible rest) :
    ∃ error, readLine state ("+++ ".toList ++ rest) = .error error := by
  have hdrop : ("+++ ".toList ++ rest).drop 4 = rest := rfl
  rw [readLine, if_pos (List.prefix_append _ _), hdrop]
  cases hread : readTarget rest with
  | ok named => exact absurd ⟨named, hread⟩ h
  | error error => exact ⟨error, rfl⟩

/-- The first characters of a line that is read past. -/
structure Passed (line : Line) : Prop where
  heading : ¬ "+++ ".toList <+: line
  header : ¬ "@@".toList <+: line

theorem readLine_passed {state : ReadState} {line : Line} (h : Passed line) :
    readLine state line = .ok state := by
  rw [readLine, if_neg h.heading]
  split
  · rfl
  · rw [if_pos h.header]
    rfl

theorem readLine_header {state : ReadState} {hunk : Hunk} :
    ∃ state', readLine state hunk.header = .ok state' ∧ state'.current = state.current ∧
      ∀ path, state'.ranges path =
        state.ranges path ++ if state.current = some path then [hunk.range] else [] := by
  obtain ⟨count, hside, hcount⟩ := newSide_header hunk
  have hplus : ¬ "+++ ".toList <+: hunk.header := fun h => absurd (List.cons_prefix_cons.1 h).1
    (by decide)
  have hat : "@@".toList <+: hunk.header := ⟨_, rfl⟩
  rw [readLine, if_neg hplus]
  cases hcurrent : state.current with
  | none =>
    refine ⟨state, rfl, hcurrent, fun path => ?_⟩
    rw [if_neg (by simp), List.append_nil]
  | some named =>
    dsimp only
    rw [if_neg (not_not.2 hat), hside]
    refine ⟨_, rfl, rfl, fun path => ?_⟩
    rw [hcount, ← Hunk.range, ReadState.ranges, OrderedMap.get?_set]
    by_cases heq : named = path
    · subst heq
      rw [if_pos rfl, if_pos rfl]
      rfl
    · rw [if_neg fun h => heq h.symm, if_neg fun h => heq (Option.some.inj h), List.append_nil]
      rfl

theorem passed_of_head {line : Line} (hplus : line.head? ≠ some '+')
    (hat : line.head? ≠ some '@') : Passed line := by
  refine ⟨?_, ?_⟩
  · rintro ⟨rest, rfl⟩
    exact hplus rfl
  · rintro ⟨rest, rfl⟩
    exact hat rfl

theorem passed_preamble {line : Line} (h : ∃ word ∈ preambleWords, word.toList <+: line) :
    Passed line := by
  obtain ⟨word, hword, rest, rfl⟩ := h
  have hheads : ∀ word ∈ preambleWords, word.toList ≠ [] ∧ word.toList.head? ≠ some '+' ∧
      word.toList.head? ≠ some '@' := by decide
  obtain ⟨hne, hplus, hat⟩ := hheads word hword
  exact passed_of_head (by rwa [List.head?_append_of_ne_nil _ hne])
    (by rwa [List.head?_append_of_ne_nil _ hne])

/-! ## Runs of lines -/

theorem foldlM_passed {state : ReadState} {lines : List Line} (h : ∀ line ∈ lines, Passed line) :
    lines.foldlM readLine state = .ok state := by
  induction lines with
  | nil => rfl
  | cons line lines ih =>
    rw [List.forall_mem_cons] at h
    rw [List.foldlM_cons, readLine_passed h.1]
    exact ih h.2

theorem foldlM_added {state : ReadState} {added : List Line}
    (h : ∀ line ∈ added, "++ ".toList <+: line → Legible (line.drop 3)) :
    ∃ state', (added.map ('+' :: ·)).foldlM readLine state = .ok state' ∧
      state'.current = added.foldl
        (fun current line => if "++ ".toList <+: line then heads (line.drop 3) else current)
        state.current ∧
      ∀ path, state'.ranges path = state.ranges path := by
  induction added generalizing state with
  | nil => exact ⟨state, rfl, rfl, fun _ => rfl⟩
  | cons line added ih =>
    rw [List.forall_mem_cons] at h
    rw [List.map_cons, List.foldlM_cons, List.foldl_cons]
    by_cases hplus : "++ ".toList <+: line
    · obtain ⟨rest, rfl⟩ := hplus
      have hlegible := h.1 (List.prefix_append _ _)
      rw [show ("++ ".toList ++ rest).drop 3 = rest from rfl] at hlegible ⊢
      obtain ⟨next, hnext, hcurrent, hranges⟩ := @readLine_heading state rest hlegible
      rw [if_pos (List.prefix_append _ _), ← hcurrent,
        show ('+' :: ("++ ".toList ++ rest)) = "+++ ".toList ++ rest from rfl, hnext]
      obtain ⟨last, hlast, hends, hsame⟩ := @ih next h.2
      exact ⟨last, hlast, hends, fun path => (hsame path).trans (hranges path)⟩
    · have hpassed : Passed ('+' :: line) :=
        ⟨fun hp => hplus (List.cons_prefix_cons.1 hp).2,
          fun hp => absurd (List.cons_prefix_cons.1 hp).1 (by decide)⟩
      rw [if_neg hplus, readLine_passed hpassed]
      exact ih h.2

theorem passed_removed {hunk : Hunk} {line : Line}
    (h : line ∈ hunk.removed.map ('-' :: ·) ++ unendedLine hunk.oldUnended) : Passed line := by
  rcases List.mem_append.1 h with h | h
  · obtain ⟨text, -, rfl⟩ := List.mem_map.1 h
    exact passed_of_head (by simp) (by simp)
  · rw [unendedLine] at h
    split at h
    · rw [List.mem_singleton.1 h]
      exact passed_of_head (by decide) (by decide)
    · cases h

theorem passed_unended {unended : Bool} : ∀ line ∈ unendedLine unended, Passed line := by
  intro line h
  rw [unendedLine] at h
  split at h
  · rw [List.mem_singleton.1 h]
    exact passed_of_head (by decide) (by decide)
  · cases h

/-- **A run over a hunk**: its range goes to the path above, and its lines may change the path. -/
theorem foldlM_hunk {state : ReadState} {hunk : Hunk}
    (h : ∀ line ∈ hunk.added, "++ ".toList <+: line → Legible (line.drop 3)) :
    ∃ state', (hunk.header :: hunk.body).foldlM readLine state = .ok state' ∧
      state'.current = headingBehind state.current hunk ∧
      ∀ path, state'.ranges path =
        state.ranges path ++ if state.current = some path then [hunk.range] else [] := by
  obtain ⟨next, hnext, hcurrent, hranges⟩ := @readLine_header state hunk
  obtain ⟨last, hlast, hends, hsame⟩ := @foldlM_added next hunk.added h
  refine ⟨last, ?_, ?_, fun path => (hsame path).trans (hranges path)⟩
  · rw [List.foldlM_cons, hnext, Hunk.body]
    show List.foldlM readLine next _ = _
    rw [List.foldlM_append, foldlM_passed fun line hline => passed_removed hline]
    show List.foldlM readLine next _ = _
    rw [List.foldlM_append, hlast]
    exact foldlM_passed passed_unended
  · rw [hends, hcurrent, headingBehind]

def rangesOf (path : String) (pairs : List (Option String × Hunk)) : List LineRange :=
  (pairs.filter fun pair => pair.1 = some path).map fun pair => pair.2.range

theorem rangesOf_cons (path : String) (pair : Option String × Hunk)
    (pairs : List (Option String × Hunk)) :
    rangesOf path (pair :: pairs) =
      (if pair.1 = some path then [pair.2.range] else []) ++ rangesOf path pairs := by
  rw [rangesOf, List.filter_cons]
  by_cases h : pair.1 = some path
  · rw [if_pos h, if_pos (decide_eq_true h)]
    rfl
  · rw [if_neg h, if_neg (by simpa using h)]
    rfl

theorem rangesOf_append (path : String) (pairs others : List (Option String × Hunk)) :
    rangesOf path (pairs ++ others) = rangesOf path pairs ++ rangesOf path others := by
  rw [rangesOf, List.filter_append, List.map_append]
  rfl

theorem foldlM_hunks {state : ReadState} {hunks : List Hunk}
    (h : ∀ hunk ∈ hunks, ∀ line ∈ hunk.added,
      "++ ".toList <+: line → Legible (line.drop 3)) :
    ∃ state', (hunks.flatMap fun hunk => hunk.header :: hunk.body).foldlM readLine state =
        .ok state' ∧
      ∀ path, state'.ranges path =
        state.ranges path ++ rangesOf path (headed state.current hunks) := by
  induction hunks generalizing state with
  | nil => exact ⟨state, rfl, fun path => (List.append_nil _).symm⟩
  | cons hunk hunks ih =>
    rw [List.forall_mem_cons] at h
    obtain ⟨next, hnext, hcurrent, hranges⟩ := @foldlM_hunk state hunk h.1
    obtain ⟨last, hlast, hrest⟩ := @ih next h.2
    refine ⟨last, ?_, fun path => ?_⟩
    · rw [List.flatMap_cons, List.foldlM_append, hnext]
      exact hlast
    · rw [hrest, hranges, hcurrent, headed, rangesOf_cons, List.append_assoc]

/-- **A run over a file's difference.** -/
theorem foldlM_file {state : ReadState} {file : FileDiff} (hfile : file.Printed)
    (hname : file.hunks ≠ [] → Legible (newLabel file))
    (hadded : ∀ hunk ∈ file.hunks, ∀ line ∈ hunk.added,
      "++ ".toList <+: line → Legible (line.drop 3)) :
    ∃ state', file.lines.foldlM readLine state = .ok state' ∧
      ∀ path, state'.ranges path =
        state.ranges path ++ rangesOf path (headed (heads (newLabel file)) file.hunks) := by
  have hpreamble : file.preamble.foldlM readLine state = .ok state :=
    foldlM_passed fun line hline => passed_preamble (hfile.preamble line hline).2
  rw [FileDiff.lines, List.foldlM_append, hpreamble]
  by_cases hnone : file.hunks = []
  · rw [if_pos hnone, hnone]
    exact ⟨state, rfl, fun path => (List.append_nil _).symm⟩
  · obtain ⟨next, hnext, hcurrent, hranges⟩ := @readLine_heading state _ (hname hnone)
    obtain ⟨last, hlast, hrest⟩ := @foldlM_hunks next file.hunks hadded
    have hold : readLine state ("--- ".toList ++ oldLabel file) = .ok state :=
      readLine_passed (passed_of_head (by simp) (by simp))
    rw [if_neg hnone]
    refine ⟨last, ?_, fun path => ?_⟩
    · show List.foldlM readLine state _ = _
      rw [List.foldlM_cons, hold]
      show List.foldlM readLine state _ = _
      rw [List.foldlM_cons, hnext]
      exact hlast
    · rw [hrest, hranges, hcurrent]

theorem headings_cons (file : FileDiff) (files : List FileDiff) :
    headings (file :: files) = headed (heads (newLabel file)) file.hunks ++ headings files :=
  List.flatMap_cons

theorem foldlM_files {state : ReadState} {files : List FileDiff}
    (hfiles : ∀ file ∈ files, file.Printed) (h : AllLegible files) :
    ∃ state', (files.flatMap FileDiff.lines).foldlM readLine state = .ok state' ∧
      ∀ path, state'.ranges path = state.ranges path ++ rangesOf path (headings files) := by
  induction files generalizing state with
  | nil => exact ⟨state, rfl, fun path => (List.append_nil _).symm⟩
  | cons file files ih =>
    rw [List.forall_mem_cons] at hfiles
    obtain ⟨next, hnext, hranges⟩ := @foldlM_file state file hfiles.1
      (h.names file List.mem_cons_self) (h.written file List.mem_cons_self)
    obtain ⟨last, hlast, hrest⟩ := @ih next hfiles.2
      ⟨fun other hother => h.names other (List.mem_cons_of_mem _ hother),
        fun other hother => h.written other (List.mem_cons_of_mem _ hother)⟩
    refine ⟨last, ?_, fun path => ?_⟩
    · rw [List.flatMap_cons, List.foldlM_append, hnext]
      exact hlast
    · rw [hrest, hranges, headings_cons, rangesOf_append, List.append_assoc]

theorem foldlM_refused {lines : List Line} {line : Line} (hline : line ∈ lines)
    (h : ∀ state, ∃ error, readLine state line = .error error) (state : ReadState) :
    ∃ error, lines.foldlM readLine state = .error error := by
  induction lines generalizing state with
  | nil => cases hline
  | cons first lines ih =>
    rw [List.foldlM_cons]
    rcases List.mem_cons.1 hline with rfl | hrest
    · obtain ⟨error, herror⟩ := h state
      exact ⟨error, by rw [herror]; rfl⟩
    · cases hread : readLine state first with
      | error error => exact ⟨error, rfl⟩
      | ok next => exact ih hrest next

/-! ## What is read -/

theorem digits_unbroken (n : Nat) : '\n' ∉ (toString n).toList := by
  rw [Nat.toString_eq_repr, Nat.toList_repr]
  intro h
  have hdigit := @Nat.isDigit_of_mem_toDigits 10 _ _ (by decide) (by decide) h
  exact absurd hdigit (by decide)

theorem printSide_unbroken (start count : Nat) : '\n' ∉ printSide start count := by
  rw [printSide, List.mem_append, not_or]
  refine ⟨digits_unbroken start, ?_⟩
  split
  · exact List.not_mem_nil
  · rw [List.mem_cons, not_or]
    exact ⟨by decide, digits_unbroken count⟩

theorem printName_unbroken (side name : String) : '\n' ∉ printName side name := by
  rw [printName, List.mem_append, not_or]
  refine ⟨not_mem_quoteName _, ?_⟩
  split <;> decide

theorem FileDiff.Printed.unbroken {file : FileDiff} (h : file.Printed) :
    ∀ line ∈ file.lines, '\n' ∉ line := by
  have hunended : ∀ {unended : Bool}, ∀ line ∈ unendedLine unended, '\n' ∉ line := by
    intro unended line hline
    cases unended with
    | true =>
      obtain rfl := List.mem_singleton.1 hline
      decide
    | false => cases hline
  intro line hline
  rw [FileDiff.lines, List.mem_append] at hline
  rcases hline with hline | hline
  · exact (h.preamble line hline).1
  · split at hline
    · cases hline
    · simp only [List.mem_cons, List.mem_flatMap] at hline
      rcases hline with rfl | rfl | ⟨hunk, hhunk, rfl | hbody⟩
      · rw [List.mem_append, not_or, oldLabel]
        refine ⟨by decide, ?_⟩
        split
        · decide
        · exact printName_unbroken _ _
      · rw [List.mem_append, not_or, newLabel]
        refine ⟨by decide, ?_⟩
        split
        · decide
        · exact printName_unbroken _ _
      · simp only [Hunk.header, List.mem_append, not_or]
        exact ⟨by decide, printSide_unbroken _ _, by decide,
          printSide_unbroken _ _, by decide, (h.hunks hunk hhunk).heading⟩
      · simp only [Hunk.body, List.mem_append, List.mem_map] at hbody
        rcases hbody with (⟨text, htext, rfl⟩ | hmark) | ⟨text, htext, rfl⟩ | hmark
        · rw [List.mem_cons, not_or]
          exact ⟨by decide, (h.hunks hunk hhunk).removed text htext⟩
        · exact hunended line hmark
        · rw [List.mem_cons, not_or]
          exact ⟨by decide, (h.hunks hunk hhunk).added text htext⟩
        · exact hunended line hmark

theorem splitOn_diffOutput {files : List FileDiff} (h : ∀ file ∈ files, file.Printed) :
    (diffOutput files).splitOn '\n' = files.flatMap FileDiff.lines ++ [[]] := by
  refine splitOn_terminated fun line hline => ?_
  obtain ⟨file, hfile, hin⟩ := List.mem_flatMap.1 hline
  exact (h file hfile).unbroken line hin

theorem passed_nil : Passed [] := passed_of_head (by simp) (by simp)

/-- **What is read**: every path once, with the ranges below its headings. -/
theorem parseUnifiedHunkRanges_eq [TextRuntime] {files : List FileDiff}
    (h : ∀ file ∈ files, file.Printed) (hlegible : AllLegible files) :
    ∃ result, parseUnifiedHunkRanges (diffOutput files) = .ok result ∧
      (result.map FileRanges.path).Nodup ∧
      ∀ path ranges, ⟨path, ranges⟩ ∈ result ↔
        ranges ≠ [] ∧ ranges = rangesOf path (headings files) := by
  obtain ⟨state, hstate, hranges⟩ := @foldlM_files ⟨.empty, none⟩ files h hlegible
  have hrun : ((diffOutput files).splitOn '\n').foldlM readLine ⟨.empty, none⟩ = .ok state := by
    rw [splitOn_diffOutput h, List.foldlM_append, hstate]
    exact foldlM_passed fun line hline => by
      rw [List.mem_singleton.1 hline]
      exact passed_nil
  have hread : ∀ path, (state.byPath.get? path).getD [] = rangesOf path (headings files) :=
    fun path => (hranges path).trans (List.nil_append _)
  rw [parseUnifiedHunkRanges, hrun]
  refine ⟨_, rfl, ?_, fun path ranges => ?_⟩
  · have hperm := (List.perm_insertionSort
      (fun left right : FileRanges => localeCompare left.path right.path ≠ .gt)
      ((state.byPath.entries.filter fun entry => 0 < entry.2.length).map
        fun entry => FileRanges.mk entry.1 entry.2)).map FileRanges.path
    rw [hperm.nodup_iff, List.map_map]
    exact state.byPath.nodup.sublist (List.filter_sublist.map _)
  · rw [List.mem_insertionSort, List.mem_map]
    constructor
    · rintro ⟨entry, hentry, heq⟩
      obtain ⟨rfl, rfl⟩ := FileRanges.mk.inj heq
      rw [List.mem_filter, decide_eq_true_eq] at hentry
      have hget := OrderedMap.get?_eq_some_iff.2 (show (entry.1, entry.2) ∈ _ from hentry.1)
      exact ⟨List.ne_nil_of_length_pos hentry.2, by rw [← hread, hget]; rfl⟩
    · rintro ⟨hne, rfl⟩
      rw [← hread] at hne ⊢
      cases hget : state.byPath.get? path with
      | none =>
        rw [hget] at hne
        exact absurd rfl hne
      | some ranges =>
        rw [hget] at hne
        refine ⟨(path, ranges), List.mem_filter.2 ⟨OrderedMap.get?_eq_some_iff.1 hget, ?_⟩, rfl⟩
        exact decide_eq_true (List.length_pos_of_ne_nil hne)

theorem parseUnifiedHunkRanges_refused [TextRuntime] {files : List FileDiff}
    (h : ∀ file ∈ files, file.Printed) (hlegible : ¬ AllLegible files) :
    ∃ error, parseUnifiedHunkRanges (diffOutput files) = .error error := by
  obtain ⟨rest, hmem, hrest⟩ : ∃ rest, "+++ ".toList ++ rest ∈ files.flatMap FileDiff.lines ∧
      ¬ Legible rest := by
    by_contra hall
    push Not at hall
    refine hlegible ⟨fun file hfile hne => hall _ (List.mem_flatMap.2 ⟨file, hfile, ?_⟩),
      fun file hfile hunk hhunk line hline hplus => hall _ (List.mem_flatMap.2 ⟨file, hfile, ?_⟩)⟩
    · rw [FileDiff.lines, if_neg hne]
      exact List.mem_append_right _ (List.mem_cons_of_mem _ List.mem_cons_self)
    · obtain ⟨rest, rfl⟩ := hplus
      rw [FileDiff.lines, if_neg (List.ne_nil_of_mem hhunk)]
      refine List.mem_append_right _ (List.mem_cons_of_mem _ (List.mem_cons_of_mem _
        (List.mem_flatMap.2 ⟨hunk, hhunk, List.mem_cons_of_mem _ ?_⟩)))
      exact List.mem_append_right _ (List.mem_append_left _ (List.mem_map.2 ⟨_, hline, rfl⟩))
  have hin : "+++ ".toList ++ rest ∈ (diffOutput files).splitOn '\n' := by
    rw [splitOn_diffOutput h]
    exact List.mem_append_left _ hmem
  obtain ⟨error, herror⟩ := foldlM_refused hin (fun _ => readLine_refused hrest) ⟨.empty, none⟩
  exact ⟨error, by rw [parseUnifiedHunkRanges, herror]; rfl⟩

theorem mem_rangesOf {path : String} {pairs : List (Option String × Hunk)} {line : Int} :
    (∃ range ∈ rangesOf path pairs, range.Mem line) ↔
      ∃ pair ∈ pairs, pair.1 = some path ∧ pair.2.Wrote line := by
  simp only [rangesOf, List.mem_map, List.mem_filter, decide_eq_true_eq]
  constructor
  · rintro ⟨range, ⟨pair, ⟨hpair, hpath⟩, rfl⟩, hline⟩
    exact ⟨pair, hpair, hpath, Hunk.mem_range.1 hline⟩
  · rintro ⟨pair, hpair, hpath, hline⟩
    exact ⟨_, ⟨pair, ⟨hpair, hpath⟩, rfl⟩, Hunk.mem_range.2 hline⟩

theorem exists_wrote_iff {files : List FileDiff} {path : String} :
    (∃ line, Wrote files path line) ↔ ∃ file ∈ files, file.Reported path ∧ file.hunks ≠ [] := by
  constructor
  · rintro ⟨line, file, hfile, hreported, hunk, hhunk, -⟩
    exact ⟨file, hfile, hreported, List.ne_nil_of_mem hhunk⟩
  · rintro ⟨file, hfile, hreported, hne⟩
    obtain ⟨hunk, hunks, hcons⟩ := List.exists_cons_of_ne_nil hne
    obtain ⟨line, hline⟩ := hunk.exists_wrote
    exact ⟨line, file, hfile, hreported, hunk, hcons ▸ List.mem_cons_self, hline⟩

theorem rangesOf_ne_nil {path : String} {pairs : List (Option String × Hunk)} :
    rangesOf path pairs ≠ [] ↔
      ∃ line, ∃ pair ∈ pairs, pair.1 = some path ∧ pair.2.Wrote line := by
  constructor
  · intro hne
    obtain ⟨range, hrange⟩ := List.exists_mem_of_ne_nil _ hne
    obtain ⟨pair, hpair, rfl⟩ := List.mem_map.1 hrange
    obtain ⟨line, hline⟩ := pair.2.exists_wrote
    exact ⟨line, mem_rangesOf.1 ⟨_, hrange, Hunk.mem_range.2 hline⟩⟩
  · rintro ⟨line, hline⟩
    obtain ⟨range, hrange, -⟩ := mem_rangesOf.2 hline
    exact List.ne_nil_of_mem hrange

/-- **When the ranges are of the lines written**: no heading is refused, and below
    the headings of each path are the lines of its own hunks. -/
theorem parseUnifiedHunkRanges_observes [TextRuntime] {files : List FileDiff}
    (h : ∀ file ∈ files, file.Printed) :
    (∃ result, parseUnifiedHunkRanges (diffOutput files) = .ok result ∧ Observes files result) ↔
      HeadedTrue files := by
  by_cases hlegible : AllLegible files
  · obtain ⟨result, hresult, honce, hmem⟩ := parseUnifiedHunkRanges_eq h hlegible
    have hlines : ∀ path line, (∃ entry ∈ result, entry.path = path ∧
        ∃ range ∈ entry.ranges, range.Mem line) ↔
          ∃ pair ∈ headings files, pair.1 = some path ∧ pair.2.Wrote line := by
      intro path line
      rw [← mem_rangesOf]
      constructor
      · rintro ⟨⟨_, ranges⟩, hentry, rfl, hline⟩
        rwa [((hmem _ _).1 hentry).2] at hline
      · rintro hline
        obtain ⟨range, hrange, -⟩ := id hline
        exact ⟨⟨path, _⟩, (hmem _ _).2 ⟨List.ne_nil_of_mem hrange, rfl⟩, rfl, hline⟩
    constructor
    · rintro ⟨result', hresult', hobserves⟩
      obtain rfl := Except.ok.inj (hresult.symm.trans hresult')
      exact ⟨hlegible, fun path line => by rw [← hlines, hobserves.lines]⟩
    · intro htrue
      refine ⟨result, hresult, honce, fun path => ?_, fun path line => by rw [hlines, htrue.own]⟩
      rw [← exists_wrote_iff, ← exists_congr fun line => htrue.own path line, ← rangesOf_ne_nil,
        List.mem_map]
      constructor
      · rintro ⟨⟨_, ranges⟩, hentry, rfl⟩
        exact ((hmem _ _).1 hentry).2 ▸ ((hmem _ _).1 hentry).1
      · intro hne
        exact ⟨⟨path, _⟩, (hmem _ _).2 ⟨hne, rfl⟩, rfl⟩
  · obtain ⟨error, herror⟩ := parseUnifiedHunkRanges_refused h hlegible
    constructor
    · rintro ⟨result, hresult, -⟩
      rw [herror] at hresult
      cases hresult
    · exact fun htrue => absurd htrue.toAllLegible hlegible

/-! ## The listing of changes -/

def entryOf (file : FileDiff) : Except StatusError NameStatusEntry := do
  let path ← (normalizeRepositoryPath file.name).mapError .path
  return ⟨file.status, path⟩

theorem readEntries_files {files : List FileDiff} (hstatus : ∀ file ∈ files, file.status ≠ []) :
    readEntries (files.flatMap fun file => [file.status, file.name.toList]) =
      files.mapM entryOf := by
  induction files with
  | nil => rfl
  | cons file files ih =>
    have hlength : file.status.length ≠ 0 := fun h =>
      hstatus file List.mem_cons_self (List.length_eq_zero_iff.1 h)
    rw [List.flatMap_cons, List.cons_append, List.cons_append, List.nil_append, readEntries,
      String.ofList_toList, if_neg hlength, List.mapM_cons,
      ← ih fun other hother => hstatus other (List.mem_cons_of_mem _ hother), entryOf]
    cases (normalizeRepositoryPath file.name).mapError StatusError.path <;> rfl

/-- **The listing of changes has each file under its name made relative**, in the order it is
printed in, unless a name cannot be made so. -/
theorem parseNameStatusZ_printed {files : List FileDiff} (hfiles : ∀ file ∈ files, file.Printed) :
    parseNameStatusZ (nameStatusOutput files) = files.mapM entryOf := by
  have hsplit : (nameStatusOutput files).splitOn '\x00' =
      (files.flatMap fun file => [file.status, file.name.toList]) ++ [[]] := by
    refine splitOn_terminated fun field hfield => ?_
    obtain ⟨file, hfile, hin⟩ := List.mem_flatMap.1 hfield
    rcases List.mem_cons.1 hin with rfl | hin
    · exact (hfiles file hfile).status.2
    · rw [List.mem_singleton.1 hin]
      exact (hfiles file hfile).name
  have heven : (files.flatMap fun file => [file.status, file.name.toList]).length % 2 = 0 := by
    rw [List.length_flatMap]
    simp
  rw [parseNameStatusZ, hsplit]
  simp only [List.getLast?_concat, if_true, List.dropLast_concat, heven, ne_eq, not_true_eq_false,
    if_false]
  exact readEntries_files fun file hfile => (hfiles file hfile).status.1

/-- A binary file that is gone, and one whose name is no path in the repository. -/
def strayFile : List FileDiff :=
  [⟨"a.png", ['D'], [], true, false, []⟩, ⟨"../b", ['A'], [], false, false, []⟩]

theorem parseNameStatusZ_printed_strayFile :
    parseNameStatusZ (nameStatusOutput strayFile) = strayFile.mapM entryOf ∧
      (strayFile.mapM entryOf).toOption = none := by
  refine ⟨parseNameStatusZ_printed fun file hfile => ?_, by decide +kernel⟩
  rcases List.mem_cons.1 hfile with rfl | hfile
  · exact ⟨by decide, ⟨by decide, by decide⟩, by decide, nofun⟩
  · obtain rfl := List.mem_singleton.1 hfile
    exact ⟨by decide, ⟨by decide, by decide⟩, by decide, nofun⟩

/-! ## Plain names and lines -/

/-- A name that is printed and read as it is. -/
structure PlainName (name : String) : Prop where
  printable : ∀ c ∈ name.toList, Printable c
  ends : ∀ c ∈ name.toList.getLast?, c ≠ ' '
  accepted : ∃ path, normalizeRepositoryPath name = .ok path

theorem isSpace_printable {c : Char} (h : Printable c) (hblank : c ≠ ' ') : isSpace c = false := by
  have hcode : c.toNat ≠ 0x20 := fun heq => hblank (Char.toNat_inj.1 heq)
  obtain ⟨hlow, hhigh, -, -⟩ := h
  simp only [isSpace, Bool.or_eq_false_iff, Bool.and_eq_false_iff, decide_eq_false_iff_not]
  omega

theorem trimChars_tab {front : List Char} {first last : Char} {middle : List Char}
    (h : front = first :: middle) (hfirst : isSpace first = false)
    (hlast : front.getLast? = some last) (hends : isSpace last = false) {tab : List Char}
    (htab : ∀ c ∈ tab, isSpace c = true) : trimChars (front ++ tab) = front := by
  obtain ⟨init, hinit⟩ : ∃ init, front = init ++ [last] := List.getLast?_eq_some_iff.1 hlast
  have hstart : (front ++ tab).dropWhile isSpace = front ++ tab := by
    rw [h, List.cons_append, List.dropWhile_cons_of_neg (by rw [hfirst]; decide)]
  rw [trimChars, hstart, List.reverse_append,
    List.dropWhile_append_of_pos fun c hc => htab c (List.mem_reverse.1 hc), hinit,
    List.reverse_append, List.reverse_singleton, List.singleton_append,
    List.dropWhile_cons_of_neg (by rw [hends]; decide), List.reverse_cons, List.reverse_reverse]

theorem readTarget_plain {name path : String} (h : PlainName name)
    (hpath : normalizeRepositoryPath name = .ok path) :
    readTarget (printName "b/" name) = .ok (some path) := by
  have hlabel : quoteName ("b/".toList ++ name.toList) = "b/".toList ++ name.toList := by
    have hside : ∀ c ∈ "b/".toList, Printable c := all_printable.1 (by decide)
    exact quoteName_printable fun c hc =>
      (List.mem_append.1 hc).elim (hside c) (h.printable c)
  obtain ⟨last, hlast, hends⟩ : ∃ last, ("b/".toList ++ name.toList).getLast? = some last ∧
      isSpace last = false := by
    rw [List.getLast?_append]
    cases hname : name.toList.getLast? with
    | none => exact ⟨'/', rfl, by decide⟩
    | some last =>
      exact ⟨last, rfl, isSpace_printable (h.printable last (List.mem_of_getLast? hname))
        (h.ends last hname)⟩
  have htrim : trimChars (printName "b/" name) = "b/".toList ++ name.toList := by
    rw [printName, hlabel]
    refine @trimChars_tab _ 'b' last ('/' :: name.toList) rfl (by decide) hlast hends _ ?_
    split
    · exact fun c hc => by rw [List.mem_singleton.1 hc]; rfl
    · exact fun c hc => absurd hc List.not_mem_nil
  have hnull : "b/".toList ++ name.toList ≠ "/dev/null".toList := by
    intro heq
    exact absurd (List.cons.inj heq).1 (by decide)
  have hname : ("b/".toList ++ name.toList).drop 2 = name.toList := rfl
  rw [readTarget, htrim, if_neg hnull, if_pos (List.prefix_append _ _), hname,
    String.ofList_toList, hpath]
  rfl

theorem readTarget_gone : readTarget "/dev/null".toList = .ok none := by decide

theorem headed_plain {current : Option String} {hunks : List Hunk}
    (h : ∀ hunk ∈ hunks, ∀ line ∈ hunk.added, ¬ "++ ".toList <+: line) :
    headed current hunks = hunks.map fun hunk => (current, hunk) := by
  have hsame : ∀ added : List Line, (∀ line ∈ added, ¬ "++ ".toList <+: line) →
      added.foldl (fun current line =>
        if "++ ".toList <+: line then heads (line.drop 3) else current) current = current := by
    intro added hadded
    induction added with
    | nil => rfl
    | cons line added ih =>
      rw [List.forall_mem_cons] at hadded
      rw [List.foldl_cons, if_neg hadded.1, ih hadded.2]
  induction hunks with
  | nil => rfl
  | cons hunk hunks ih =>
    rw [List.forall_mem_cons] at h
    rw [headed, headingBehind, hsame _ h.1, ih h.2, List.map_cons]

/-- **Plain names and lines are headed true.** -/
theorem headedTrue_of_plain {files : List FileDiff}
    (hnames : ∀ file ∈ files, file.deleted = false → PlainName file.name)
    (hlines : ∀ file ∈ files, ∀ hunk ∈ file.hunks, ∀ line ∈ hunk.added,
      ¬ "++ ".toList <+: line) : HeadedTrue files := by
  have hheads : ∀ file ∈ files, ∃ named, readTarget (newLabel file) = .ok named ∧
      ∀ path, named = some path ↔ file.Reported path := by
    intro file hfile
    rw [newLabel]
    cases hgone : file.deleted with
    | true =>
      refine ⟨none, readTarget_gone, fun path => ⟨(fun h => by cases h), fun hreported => ?_⟩⟩
      rw [FileDiff.Reported, hgone] at hreported
      cases hreported.1
    | false =>
      have hplain := hnames file hfile hgone
      obtain ⟨own, hown⟩ := hplain.accepted
      refine ⟨some own, readTarget_plain hplain hown, fun path => ?_⟩
      rw [FileDiff.Reported, hown, Option.some_inj]
      exact ⟨fun h => ⟨hgone, h ▸ rfl⟩, fun h => Except.ok.inj h.2⟩
  refine ⟨⟨fun file hfile _ => ?_, fun file hfile hunk hhunk line hline hplus => ?_⟩,
    fun path line => ?_⟩
  · obtain ⟨named, hnamed, -⟩ := hheads file hfile
    exact ⟨named, hnamed⟩
  · exact absurd hplus (hlines file hfile hunk hhunk line hline)
  · rw [headings]
    constructor
    · rintro ⟨pair, hpair, hpath, hwrote⟩
      obtain ⟨file, hfile, hin⟩ := List.mem_flatMap.1 hpair
      rw [headed_plain (hlines file hfile)] at hin
      obtain ⟨hunk, hhunk, rfl⟩ := List.mem_map.1 hin
      obtain ⟨named, hnamed, hreported⟩ := hheads file hfile
      rw [heads, hnamed] at hpath
      exact ⟨file, hfile, (hreported path).1 hpath, hunk, hhunk, hwrote⟩
    · rintro ⟨file, hfile, hreported, hunk, hhunk, hwrote⟩
      obtain ⟨named, hnamed, hiff⟩ := hheads file hfile
      refine ⟨(heads (newLabel file), hunk), List.mem_flatMap.2 ⟨file, hfile, ?_⟩, ?_, hwrote⟩
      · rw [headed_plain (hlines file hfile)]
        exact List.mem_map_of_mem hhunk
      · rw [heads, hnamed]
        exact (hiff path).2 hreported

def twoFiles : List FileDiff :=
  [⟨"src/a.ts", ['M'], ["diff --git a/src/a.ts b/src/a.ts".toList], false, false,
      [⟨3, 3, [], ["x".toList], ["y".toList, "z".toList], false, false⟩]⟩,
    ⟨"b.ts", ['D'], ["diff --git a/b.ts b/b.ts".toList], true, false,
      [⟨1, 0, [], ["w".toList], [], false, false⟩]⟩]

theorem parseUnifiedHunkRanges_observes_twoFiles :
    ∃ result, @parseUnifiedHunkRanges asciiRuntime (diffOutput twoFiles) = .ok result ∧
      Observes twoFiles result := by
  refine (@parseUnifiedHunkRanges_observes asciiRuntime _ ?_).2 (headedTrue_of_plain ?_ ?_)
  · intro file hfile
    rcases List.mem_cons.1 hfile with rfl | hfile
    · exact ⟨by decide, ⟨by decide, by decide⟩, by decide, fun hunk hhunk => by
        obtain rfl := List.mem_singleton.1 hhunk
        exact ⟨by decide, by decide, by decide, by decide⟩⟩
    · obtain rfl := List.mem_singleton.1 hfile
      exact ⟨by decide, ⟨by decide, by decide⟩, by decide, fun hunk hhunk => by
        obtain rfl := List.mem_singleton.1 hhunk
        exact ⟨by decide, by decide, by decide, by decide⟩⟩
  · intro file hfile hkept
    rcases List.mem_cons.1 hfile with rfl | hfile
    · refine ⟨all_printable.1 (by decide), fun c hc => ?_, "src/a.ts", by decide⟩
      have hlast : "src/a.ts".toList.getLast? = some 's' := by decide
      rw [hlast] at hc
      obtain rfl := Option.some.inj hc
      decide
    · obtain rfl := List.mem_singleton.1 hfile
      cases hkept
  · decide

/-- A note on a diff: its first hunk adds a line that starts with `++ `. -/
def noteOnDiff : List FileDiff :=
  [⟨"a.md", ['M'], ["diff --git a/a.md b/a.md".toList], false, false,
    [⟨1, 2, [], [], ["++ b/c.md".toList], false, false⟩,
      ⟨5, 6, [], ["x".toList], ["y".toList], false, false⟩]⟩]

/-- **A line that starts with `++ ` takes the hunks below it to the file it
    names**, which need not exist. -/
theorem parseUnifiedHunkRanges_misattributes :
    ¬ ∀ files : List FileDiff, (∀ file ∈ files, file.Printed) →
      ∃ result, @parseUnifiedHunkRanges asciiRuntime (diffOutput files) = .ok result ∧
        Observes files result := by
  intro h
  have hread : @parseUnifiedHunkRanges asciiRuntime (diffOutput noteOnDiff) =
      .ok [⟨"a.md", [⟨2, 2⟩]⟩, ⟨"c.md", [⟨6, 6⟩]⟩] := by decide +kernel
  obtain ⟨result, hresult, hobserves⟩ := h noteOnDiff (by
    intro file hfile
    obtain rfl := List.mem_singleton.1 hfile
    refine ⟨by decide, ⟨by decide, by decide⟩, by decide, fun hunk hhunk => ?_⟩
    rcases List.mem_cons.1 hhunk with rfl | hhunk
    · exact ⟨by decide, by decide, by decide, by decide⟩
    · obtain rfl := List.mem_singleton.1 hhunk
      exact ⟨by decide, by decide, by decide, by decide⟩)
  obtain rfl := Except.ok.inj (hread.symm.trans hresult)
  obtain ⟨file, hfile, hreported, -⟩ := (hobserves.listed "c.md").1 (by decide)
  obtain rfl := List.mem_singleton.1 hfile
  have hname : normalizeRepositoryPath "a.md" = .ok "a.md" := by decide
  have hsame := Except.ok.inj (hname.symm.trans hreported.2)
  exact absurd hsame (by decide)

end AgenticGit.Workspace.Observed
