import AgenticGit.Shared.ChangeSet

/- Taking a unified diff apart and putting a subset of it back together
   (`repository-service/src/patch.ts`).

   Correspondence (TypeScript ↔ Lean):
     `HUNK_HEADER.exec(line)`        ↔ `hunkHeader`: after a run of digits the
       expression has one way on, so it is read from the left
     `Number.parseInt(digits, 10)`   ↔ `readDigits`; past the safe integers the
       runtime rounds, and the callers refuse the number either way
     the loop's `current`            ↔ the newest of `hunks`, newest first -/
namespace AgenticGit.Repository
open AgenticGit.Runtime AgenticGit.Shared

/-! ## Hunk headers -/

structure HunkHeader where
  oldStart : Nat
  oldLines : Option Nat
  /-- Whatever follows the closing `@@`. -/
  heading : Line
  deriving DecidableEq, Repr

/-- `Number.parseInt` of a run of digits. -/
def readDigits (digits : List Char) : Nat :=
  digits.foldl (fun n c => 10 * n + (c.toNat - '0'.toNat)) 0

/-- `\d+` at the head of the line. -/
def number (line : Line) : Option (Nat × Line) :=
  match line.takeWhile Char.isDigit with
  | [] => none
  | digits => some (readDigits digits, line.dropWhile Char.isDigit)

/-- `(?:,(\d+))?` at the head of the line. -/
def optionalCount (line : Line) : Option Nat × Line :=
  match line with
  | ',' :: rest =>
    match number rest with
    | some (count, rest) => (some count, rest)
    | none => (none, line)
  | _ => (none, line)

def skip (text : String) (line : Line) : Option Line := line.dropPrefix? text.toList

/-- `@@ -oldStart,oldLines +newStart,newLines @@`, with the counts optional. Only the
old side is read. -/
def hunkHeader (line : Line) : Option HunkHeader := do
  let rest ← skip "@@ -" line
  let (oldStart, rest) ← number rest
  let (oldLines, rest) := optionalCount rest
  let rest ← skip " +" rest
  let (_, rest) ← number rest
  let (_, rest) := optionalCount rest
  let heading ← skip " @@" rest
  return ⟨oldStart, oldLines, heading⟩

/-! ## parseUnifiedPatch -/

/-- One hunk of a unified diff, kept whole. -/
structure ParsedHunk where
  oldStart : Nat
  oldCount : Nat
  newCount : Nat
  heading : Line
  body : List Line
  deriving DecidableEq, Repr

structure ParsedPatch where
  /-- Everything before the first hunk. -/
  preamble : List Line
  hunks : List ParsedHunk
  trailingNewline : Bool
  deriving DecidableEq, Repr

/-- The loop over the lines: the preamble and the hunks, newest first. -/
def parseLines : List Line → List Line → List ParsedHunk →
    Option (List Line × List ParsedHunk)
  | [], preamble, hunks => some (preamble, hunks)
  | line :: lines, preamble, hunks =>
    match hunkHeader line with
    | some header =>
      let oldCount := header.oldLines.getD 1
      if ¬IsSafeInteger header.oldStart ∨ ¬IsSafeInteger oldCount then none
      else parseLines lines preamble (⟨header.oldStart, oldCount, 0, header.heading, []⟩ :: hunks)
    | none =>
      match hunks with
      | [] => parseLines lines (preamble ++ [line]) []
      | current :: earlier =>
        -- "\ No newline at end of file", or something this parser does not know.
        if Line.startsWith line "\\" then none
        else if ¬Line.startsWith line " " ∧ ¬Line.startsWith line "+" ∧
            ¬Line.startsWith line "-" ∧ 0 < line.length then none
        else parseLines lines preamble ({ current with body := current.body ++ [line] } :: earlier)

def oldLines (body : List Line) : Nat :=
  (body.filter fun line => !Line.startsWith line "+").length

def newLines (body : List Line) : Nat :=
  (body.filter fun line => !Line.startsWith line "-").length

/-- The headers are checked against the bodies rather than trusted. -/
def checkHunk (hunk : ParsedHunk) : Option ParsedHunk :=
  if oldLines hunk.body ≠ hunk.oldCount then none
  else some { hunk with newCount := newLines hunk.body }

/-- A patch broken into hunks, or `none` when it is not safe to break. -/
def parseUnifiedPatch (patch : String) : Option ParsedPatch :=
  let trailingNewline := patch.toList.getLast? = some '\n'
  let lines :=
    if trailingNewline then patch.toList.dropLast.splitOn '\n' else splitLines patch
  match parseLines lines [] [] with
  | none => none
  | some (_, []) => none
  | some (preamble, hunks) => do
    let hunks ← hunks.reverse.mapM checkHunk
    return ⟨preamble, hunks, trailingNewline⟩

/-! ## emitPatch -/

/-- Where a hunk lands in the new file, `delta` lines on. -/
def newStart (hunk : ParsedHunk) (delta : Int) : Int :=
  if hunk.oldCount = 0 then hunk.oldStart + delta + 1
  else if hunk.newCount = 0 then max 0 (hunk.oldStart + delta - 1)
  else hunk.oldStart + delta

/-- The loop of `emitPatch`. -/
def emitHunks : List ParsedHunk → Int → List Line
  | [], _ => []
  | hunk :: hunks, delta =>
    (s!"@@ -{hunk.oldStart},{hunk.oldCount} +{newStart hunk delta},{hunk.newCount} @@".toList ++
        hunk.heading) ::
      (hunk.body ++ emitHunks hunks (delta + (hunk.newCount - hunk.oldCount)))

/-- Re-emits a subset of a patch's hunks as a patch in its own right. -/
def emitPatch (parsed : ParsedPatch) (hunks : List ParsedHunk) : String :=
  let text := joinLines (parsed.preamble ++ emitHunks hunks 0)
  if parsed.trailingNewline then text ++ "\n" else text

end AgenticGit.Repository
