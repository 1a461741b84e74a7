import AgenticGit.Repository.Patch
import AgenticGit.Coordinator.Ranges

/- Reading a patch for what it touched, rather than for what it says
   (`coordinator/src/hunks.ts`).

   What is proved: a division gives each hunk of the patch to exactly one of its
   two halves (`dividePatchByRanges_spec`). -/
namespace AgenticGit.Coordinator
open AgenticGit.Runtime AgenticGit.Shared AgenticGit.Repository

/-! ## patchedLineRanges -/

/-- The loop of `patchedLineRanges`. -/
def patchedLineRangesLoop : List Line → Int → Bool → List LineRange
  | [], _, _ => []
  | line :: lines, oldLine, inHunk =>
    match hunkHeader line with
    | some header =>
      let count := header.oldLines.getD 1
      -- A hunk without old lines is numbered by the line before the insertion.
      let oldLine : Int := if count = 0 then header.oldStart + 1 else header.oldStart
      patchedLineRangesLoop lines oldLine (IsSafeInteger header.oldStart ∧ IsSafeInteger count)
    | none =>
      if !inHunk || Line.startsWith line "\\" then patchedLineRangesLoop lines oldLine inHunk
      else if Line.startsWith line "-" then
        ⟨oldLine, oldLine⟩ :: patchedLineRangesLoop lines (oldLine + 1) inHunk
      else if Line.startsWith line "+" then
        ⟨max 1 (oldLine - 1), max 1 oldLine⟩ :: patchedLineRangesLoop lines oldLine inHunk
      else if Line.startsWith line " " || line.length = 0 then
        patchedLineRangesLoop lines (oldLine + 1) inHunk
      else patchedLineRangesLoop lines oldLine false

def patchedLineRanges (patch : String) : List LineRange :=
  patchedLineRangesLoop (splitLines patch) 0 false

/-! ## dividePatchByRanges -/

structure PatchDivision where
  /-- The hunks clear of every withheld range. -/
  granted : Option String
  /-- The hunks that reach into a withheld range. -/
  deferred : Option String
  grantedHunks : Nat
  deferredHunks : Nat
  deriving DecidableEq, Repr

def reaches (parsed : ParsedPatch) (withheld : List LineRange) (hunk : ParsedHunk) : Bool :=
  let touched := patchedLineRanges
    (emitPatch { parsed with preamble := [], trailingNewline := false } [hunk])
  touched.any fun range => withheld.any fun held => rangesOverlap range held

/-- The hunks as a patch of their own, when there are any. -/
def emitted (parsed : ParsedPatch) (hunks : List ParsedHunk) : Option String :=
  if hunks.length = 0 then none else some (emitPatch parsed hunks)

/-- Divides a patch into the part that stays clear of some withheld lines and the
part that does not; `none` when it cannot be divided safely. -/
def dividePatchByRanges (patch : String) (withheld : List LineRange) : Option PatchDivision :=
  if withheld.length = 0 then none
  else do
    let parsed ← parseUnifiedPatch patch
    let granted := parsed.hunks.filter fun hunk => !reaches parsed withheld hunk
    let deferred := parsed.hunks.filter fun hunk => reaches parsed withheld hunk
    return ⟨emitted parsed granted, emitted parsed deferred, granted.length, deferred.length⟩

structure NamedRange extends LineRange where
  name : String
  deriving DecidableEq, Repr

/-- Where each symbol lives in one file; `none` when it cannot be parsed. -/
abbrev SymbolIndex := Option (String → Option (List NamedRange))

/-- Which of `candidates` a patch reaches into, given where they live. Where a file
could not be parsed it is every candidate. -/
def namesTouchedByPatch (patch : String) (ranges : Option (List NamedRange))
    (candidates : List String) : List String :=
  match ranges with
  | none => sortStrings (unique candidates)
  | some ranges =>
    let hunks := patchedLineRanges patch
    sortStrings (unique ((ranges.filter fun range =>
      range.name ∈ candidates && hunks.any fun hunk => rangesOverlap hunk range.toLineRange).map
        NamedRange.name))

/-! ## Nothing is lost in a division -/

/-- Two patches that a patch was divided into: each is a subset of its hunks put
back together, and between them they hold every hunk once. -/
def Divides (patch granted deferred : String) : Prop :=
  ∃ parsed kept held, parseUnifiedPatch patch = some parsed ∧ kept ≠ [] ∧ held ≠ [] ∧
    granted = emitPatch parsed kept ∧ deferred = emitPatch parsed held ∧
    kept.Sublist parsed.hunks ∧ held.Sublist parsed.hunks ∧ (kept ++ held).Perm parsed.hunks

theorem emitted_eq_some {parsed : ParsedPatch} {hunks : List ParsedHunk} {patch : String}
    (h : emitted parsed hunks = some patch) : hunks ≠ [] ∧ patch = emitPatch parsed hunks := by
  unfold emitted at h
  split at h
  · cases h
  · rename_i hlen
    cases h
    refine ⟨?_, rfl⟩
    intro hnil
    exact hlen (by rw [hnil]; rfl)

/-- **A division loses no hunk and repeats none.** -/
theorem dividePatchByRanges_spec {patch granted deferred : String} {withheld : List LineRange}
    {division : PatchDivision} (h : dividePatchByRanges patch withheld = some division)
    (hg : division.granted = some granted) (hd : division.deferred = some deferred) :
    Divides patch granted deferred := by
  unfold dividePatchByRanges at h
  split at h
  · cases h
  · obtain ⟨parsed, hparsed, h⟩ := Option.bind_eq_some_iff.mp h
    cases h
    obtain ⟨hkept, hgranted⟩ := emitted_eq_some hg
    obtain ⟨hheld, hdeferred⟩ := emitted_eq_some hd
    refine ⟨parsed, _, _, hparsed, hkept, hheld, hgranted, hdeferred, List.filter_sublist,
      List.filter_sublist, ?_⟩
    have hperm := List.filter_append_perm (fun hunk => !reaches parsed withheld hunk) parsed.hunks
    simpa only [Bool.not_not] using hperm

end AgenticGit.Coordinator
