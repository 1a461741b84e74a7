import AgenticGit.CodeIntelligence.Masking
import AgenticGit.Lib.OrderedMap

/- Where the declarations of a brace-delimited file stand
   (services/code-intelligence/src/symbol-ranges.ts), on the masked text.

   The regular expressions of a dialect are a parameter (`Patterns`): what they
   find in a masked text, and which raw lines belong to the declaration below.

   Correspondence (TypeScript ↔ Lean):
     bracesBalance and the check of braceSymbolRanges ↔ `bracesBalance`
     closingBrace / headEndOf / expressionBodyEnd     ↔ the same names
     isAssignment / looksLikeTypeArgument             ↔ the same names
     startsDeclaration / locate / typeGroupsOf        ↔ the same names
     lineStarts / lineOf / braceSymbolRanges          ↔ the same names

   What is proved: the masked text is the file with exactly the comments and
   literals of a reading of it blank, every file made of the forms of its
   dialect is answered so, and the braces of a literal play no part in the
   ranges (`masking_exact`). Comments that nest and raw strings are not among
   the forms (`masking_misses_nested`). -/
namespace AgenticGit.CodeIntelligence.Masking
open Json Pieces

/-! ## The model -/

def openBrace : UInt16 := 123
def closeBrace : UInt16 := 125

inductive Declared where
  | function
  | type
deriving DecidableEq

structure PatternMatch where
  name : Units
  declared : Declared
  index : Nat
  length : Nat
  /-- A member of a Go `type ( ... )` group, by its pattern. -/
  groupMember : Bool

/-- What a language's regular expressions answer. -/
structure Patterns where
  /-- The matches in a masked text, pattern by pattern. -/
  declarations : Units → List PatternMatch
  /-- `dialect.aliases?.test` -/
  aliases : Units → Bool
  /-- The offsets of the `(` of `type (`, for Go. -/
  typeGroups : Units → List Nat
  /-- `dialect.attached`, `dialect.statements` or a declaration pattern matches. -/
  startsAt : Units → Bool
  /-- `/\boperator\s*[^\s\w(]*$/u` -/
  operatorEnd : Units → Bool
  /-- `dialect.attached.test` on a line. -/
  attached : Units → Bool
  /-- `dialect.arrowBodies === true` -/
  arrowBodies : Bool

structure SymbolRange where
  name : Units
  startLine : Nat
  endLine : Nat
deriving DecidableEq

/-- One declaration: where its head and body are. -/
structure BraceDeclaration where
  name : Units
  declared : Declared
  start : Nat
  headEnd : Nat
  body : Option (Nat × Nat) := none

/-- The count of the braces never falls below zero and ends there. -/
def balancedFrom : Nat → Units → Bool
  | depth, [] => depth = 0
  | depth, u :: rest =>
    if u = openBrace then balancedFrom (depth + 1) rest
    else if u = closeBrace then
      match depth with
      | 0 => false
      | depth + 1 => balancedFrom depth rest
    else balancedFrom depth rest

def bracesBalance (code : Units) : Bool := balancedFrom 0 code

/-- The loop of `closingBrace` at offset `position`. -/
def closingFrom : Nat → Int → Units → Option Nat
  | _, _, [] => none
  | position, inner, u :: rest =>
    if u = openBrace then closingFrom (position + 1) (inner + 1) rest
    else if u = closeBrace then
      if inner - 1 = 0 then some position else closingFrom (position + 1) (inner - 1) rest
    else closingFrom (position + 1) inner rest

def closingBrace (code : Units) (opened : Nat) : Option Nat :=
  closingFrom opened 0 (code.drop opened)

def isBlankUnit (u : UInt16) : Bool := u = 32 || u = 9

/-- `/^<[ \t]*(?:[A-Za-z_?*&'\[]|>|\(\))/u` on the four units at `position`. -/
def looksLikeTypeArgument (code : Units) (position : Nat) : Bool :=
  match (code.drop position).take 4 with
  | [] => false
  | u :: rest =>
    u = 60 && match rest.dropWhile isBlankUnit with
      | [] => false
      | v :: more =>
        (65 ≤ v && v ≤ 90) || (97 ≤ v && v ≤ 122) || (ascii "_?*&'[>").contains v ||
          (v = 40 && more.head? = some 41)

def isAssignment (patterns : Patterns) (code : Units) (position : Nat) : Bool :=
  let before := if position = 0 then none else code[position - 1]?
  let after := code[position + 1]?
  if after = some 61 || before.any fun u => (ascii "=!<>+-*/%&|^~:").contains u then false
  else if after = some 62 then patterns.arrowBodies
  else !patterns.operatorEnd ((code.take position).drop (position - 16))

/-- `rest.replace(/^(?:[ \t]*\n)*/u, "")` -/
def skipBlankLines : Nat → Units → Units
  | 0, rest => rest
  | fuel + 1, rest =>
    match rest.dropWhile isBlankUnit with
    | u :: more => if u = newline then skipBlankLines fuel more else rest
    | [] => rest

def startsDeclaration (patterns : Patterns) (code : Units) (position : Nat) : Bool :=
  let rest := code.drop position
  patterns.startsAt (skipBlankLines rest.length rest)

/-- `while (openers.length > 0 && openers.pop() !== wanted)` -/
def popUntil (wanted : UInt16) : List UInt16 → List UInt16
  | [] => []
  | opener :: openers => if opener ≠ wanted then popUntil wanted openers else openers

/-- The loop of `headEndOf` at offset `position`. -/
def headEndFrom (patterns : Patterns) (code : Units) (aliased : Bool) (matched : Nat) :
    Nat → List UInt16 → Units → Nat
  | position, _, [] => position
  | position, openers, u :: rest =>
    if u = 40 ∨ u = 91 then
      headEndFrom patterns code aliased matched (position + 1) (u :: openers) rest
    else if u = 60 ∧ looksLikeTypeArgument code position = true then
      headEndFrom patterns code aliased matched (position + 1) (60 :: openers) rest
    else if u = 41 ∨ u = 93 then
      headEndFrom patterns code aliased matched (position + 1)
        (popUntil (if u = 41 then 40 else 91) openers) rest
    else if u = 62 then
      let before := if position = 0 then none else code[position - 1]?
      headEndFrom patterns code aliased matched (position + 1)
        (if openers.head? = some 60 ∧ before ≠ some 45 ∧ before ≠ some 61 then openers.tail
          else openers) rest
    else if openers ≠ [] then headEndFrom patterns code aliased matched (position + 1) openers rest
    else if u = openBrace ∨ u = 59 ∨ u = closeBrace then position
    else if aliased = false ∧ u = 61 ∧ isAssignment patterns code position = true then position
    else if u = newline ∧ matched ≤ position ∧
        startsDeclaration patterns code (position + 1) = true then position
    else headEndFrom patterns code aliased matched (position + 1) openers rest

def headEndOf (patterns : Patterns) (code : Units) (start : Nat) (aliased : Bool) (matched : Nat) :
    Nat :=
  headEndFrom patterns code aliased matched start [] (code.drop start)

/-- The loop of `expressionBodyEnd` at offset `position`. -/
def bodyEndFrom (patterns : Patterns) (code : Units) (start : Nat) : Nat → Nat → Units → Nat
  | _, _, [] => code.length - 1
  | position, depth, u :: rest =>
    if u = 40 ∨ u = 91 ∨ u = openBrace then
      bodyEndFrom patterns code start (position + 1) (depth + 1) rest
    else if u = 41 ∨ u = 93 then bodyEndFrom patterns code start (position + 1) (depth - 1) rest
    else if u = closeBrace then
      if depth = 0 then max start (position - 1)
      else bodyEndFrom patterns code start (position + 1) (depth - 1) rest
    else if u = newline ∧ depth = 0 ∧ startsDeclaration patterns code (position + 1) = true then
      position
    else bodyEndFrom patterns code start (position + 1) depth rest

def expressionBodyEnd (patterns : Patterns) (code : Units) (start : Nat) : Nat :=
  bodyEndFrom patterns code start start 0 (code.drop start)

/-- The loop of `typeGroupsOf` from the `(` at `opened`. -/
def groupFrom (opened : Nat) : Nat → Int → Units → Option (Nat × Nat)
  | _, _, [] => none
  | position, depth, u :: rest =>
    if u = 40 then groupFrom opened (position + 1) (depth + 1) rest
    else if u = 41 then
      if depth - 1 = 0 then some (opened, position)
      else groupFrom opened (position + 1) (depth - 1) rest
    else groupFrom opened (position + 1) depth rest

/-- The `( ... )` spans of Go's grouped `type (` declarations. -/
def typeGroupsOf (patterns : Patterns) (code : Units) : List (Nat × Nat) :=
  (patterns.typeGroups code).filterMap fun opened => groupFrom opened opened 0 (code.drop opened)

/-- What one match declares; nothing when its body cannot be closed. -/
def declarationOf (patterns : Patterns) (code : Units) (found : PatternMatch) :
    Option BraceDeclaration :=
  let matched := found.index + found.length
  let aliased := patterns.aliases ((code.take (matched + 1)).drop found.index)
  let headEnd := headEndOf patterns code found.index aliased matched
  let declaration : BraceDeclaration :=
    { name := found.name, declared := found.declared, start := found.index, headEnd }
  if code[headEnd]? = some openBrace then
    (closingBrace code headEnd).map fun close => { declaration with body := some (headEnd, close) }
  else some declaration

/-- One match of `locate`: the reading listed first wins a start, and a group
    member counts inside a group only. -/
def locateMatch (patterns : Patterns) (language : BraceLanguage) (code : Units)
    (groups : List (Nat × Nat)) (byStart : List BraceDeclaration) (found : PatternMatch) :
    List BraceDeclaration :=
  if byStart.any fun declaration => declaration.start = found.index then byStart
  else if language = .go ∧ found.groupMember = true ∧
      groups.any (fun group => group.1 < found.index && found.index < group.2) = false then byStart
  else byStart ++ (declarationOf patterns code found).toList

/-- Every match, with its head and body located, in file order and one per start. -/
def locate (patterns : Patterns) (language : BraceLanguage) (code : Units) :
    List BraceDeclaration :=
  let groups := if language = .go then typeGroupsOf patterns code else []
  let byStart := (patterns.declarations code).foldl (locateMatch patterns language code groups) []
  byStart.mergeSort fun a b => a.start ≤ b.start

/-- The offsets behind the line breaks of a text that begins at `position`. -/
def lineStartsFrom : Nat → Units → List Nat
  | _, [] => []
  | position, u :: rest =>
    if u = newline then (position + 1) :: lineStartsFrom (position + 1) rest
    else lineStartsFrom (position + 1) rest

def lineStarts (source : Units) : List Nat := 0 :: lineStartsFrom 0 source

/-- The binary search of `lineOf`. -/
def lineSearch (starts : List Nat) (offset low high : Nat) : Nat :=
  if low < high then
    let mid := (low + high + 1) / 2
    if (starts[mid]?).getD 0 ≤ offset then lineSearch starts offset mid high
    else lineSearch starts offset low (mid - 1)
  else low + 1
termination_by high - low

def lineOf (starts : List Nat) (offset : Nat) : Nat :=
  lineSearch starts offset 0 (starts.length - 1)

/-- `while (startLine > 1 && dialect.attached.test(lines[startLine - 2] ?? ""))` -/
def attachedStart (attached : Units → Bool) (lines : List Units) : Nat → Nat
  | 0 => 0
  | 1 => 1
  | line + 2 => if attached ((lines[line]?).getD []) then attachedStart attached lines (line + 1)
    else line + 2

def closeOf (patterns : Patterns) (code : Units) (declaration : BraceDeclaration) : Option Nat :=
  if code[declaration.headEnd]? = some openBrace then declaration.body.map Prod.snd
  else if code[declaration.headEnd]? = some 61 then
    some (expressionBodyEnd patterns code (declaration.headEnd + 1))
  else some (min declaration.headEnd (code.length - 1))

def rangesOf (patterns : Patterns) (language : BraceLanguage) (code : Units) (starts : List Nat)
    (lines : List Units) : List SymbolRange :=
  let found := (locate patterns language code).foldl (fun (found : OrderedMap Units SymbolRange)
      declaration =>
    match closeOf patterns code declaration with
    | none => found
    | some close =>
      let startLine := attachedStart patterns.attached lines (lineOf starts declaration.start)
      let endLine := lineOf starts close
      let existing := found.get? declaration.name
      found.set declaration.name
        { name := declaration.name
          startLine := min ((existing.map (·.startLine)).getD startLine) startLine
          endLine := max ((existing.map (·.endLine)).getD endLine) endLine }) OrderedMap.empty
  found.values.mergeSort fun a b => a.startLine ≤ b.startLine

def braceSymbolRanges (patterns : Patterns) (source : Units) (language : BraceLanguage) :
    Option (List SymbolRange) :=
  match blankNonCodeWithSpans source language.dialect with
  | none => none
  | some (code, _) =>
    if bracesBalance code then
      some (rangesOf patterns language code (lineStarts source) (source.splitOn newline))
    else none

/-! ## The braces of a declaration -/

theorem closingFrom_brace {position : Nat} {inner : Int} {rest : Units} {close : Nat}
    (h : closingFrom position inner rest = some close) :
    position ≤ close ∧ rest[close - position]? = some closeBrace := by
  induction rest generalizing position inner with
  | nil => cases h
  | cons u rest ih =>
    have step {inner : Int} (h : closingFrom (position + 1) inner rest = some close) :
        position ≤ close ∧ (u :: rest)[close - position]? = some closeBrace := by
      obtain ⟨hle, hclose⟩ := ih h
      refine ⟨by omega, ?_⟩
      rw [show close - position = close - (position + 1) + 1 by omega, List.getElem?_cons_succ]
      exact hclose
    rw [closingFrom] at h
    split at h
    · exact step h
    split at h
    · rename_i hu
      split at h
      · cases h
        exact ⟨Nat.le_refl _, by rw [Nat.sub_self, List.getElem?_cons_zero, hu]⟩
      · exact step h
    · exact step h

theorem closingBrace_brace {code : Units} {opened close : Nat}
    (h : closingBrace code opened = some close) : code[close]? = some closeBrace := by
  obtain ⟨hle, hclose⟩ := closingFrom_brace h
  rw [List.getElem?_drop, Nat.add_sub_cancel' hle] at hclose
  exact hclose

variable {patterns : Patterns} {language : BraceLanguage} {lines lines' : List Units}

theorem declarationOf_body {code : Units} {found : PatternMatch} {declaration : BraceDeclaration}
    (h : declarationOf patterns code found = some declaration) {opened close : Nat}
    (hbody : declaration.body = some (opened, close)) :
    code[opened]? = some openBrace ∧ code[close]? = some closeBrace := by
  simp only [declarationOf] at h
  split at h
  · rename_i hopen
    obtain ⟨c, hc, rfl⟩ := Option.map_eq_some_iff.1 h
    cases hbody
    exact ⟨hopen, closingBrace_brace hc⟩
  · cases h
    cases hbody

/-- The declaration's body stands between two braces. -/
def Braced (code : Units) (declaration : BraceDeclaration) : Prop :=
  ∀ opened close, declaration.body = some (opened, close) →
    code[opened]? = some openBrace ∧ code[close]? = some closeBrace

theorem locateMatch_braced {code : Units} {groups : List (Nat × Nat)}
    {byStart : List BraceDeclaration} (h : ∀ declaration ∈ byStart, Braced code declaration)
    (found : PatternMatch) :
    ∀ declaration ∈ locateMatch patterns language code groups byStart found,
      Braced code declaration := by
  intro declaration hd
  rw [locateMatch] at hd
  split at hd
  · exact h declaration hd
  split at hd
  · exact h declaration hd
  · rcases List.mem_append.1 hd with hd | hd
    · exact h declaration hd
    · exact fun _ _ => declarationOf_body (Option.mem_toList.1 hd)

/-- **A body stands between two braces of the masked text**. -/
theorem locate_braced {code : Units} {declaration : BraceDeclaration}
    (h : declaration ∈ locate patterns language code) : Braced code declaration := by
  rw [locate, List.mem_mergeSort] at h
  have hall (found : List PatternMatch) (groups : List (Nat × Nat))
      (byStart : List BraceDeclaration) (hstart : ∀ d ∈ byStart, Braced code d) :
      ∀ d ∈ found.foldl (locateMatch patterns language code groups) byStart, Braced code d := by
    induction found generalizing byStart with
    | nil => exact hstart
    | cons m ms ih => exact ih _ (locateMatch_braced hstart m)
  exact hall _ _ [] (fun _ h => by cases h) declaration h

/-! ## The lines -/

theorem lineStartsFrom_congr {source code : Units} (hlen : code.length = source.length)
    (hbreak : ∀ i : Nat, code[i]? = some newline ↔ source[i]? = some newline) (position : Nat) :
    lineStartsFrom position code = lineStartsFrom position source := by
  induction source generalizing code position with
  | nil => rw [List.eq_nil_of_length_eq_zero hlen]
  | cons u source ih =>
    cases code with
    | nil => cases hlen
    | cons v code =>
      have hrest := ih (Nat.succ.inj hlen) (fun i => hbreak (i + 1)) (position + 1)
      have hhead : v = newline ↔ u = newline := by
        have := hbreak 0
        rwa [List.getElem?_cons_zero, List.getElem?_cons_zero, Option.some_inj,
          Option.some_inj] at this
      rw [lineStartsFrom, lineStartsFrom, hrest]
      simp only [hhead]

theorem attachedStart_congr {attached : Units → Bool} (h : lines.map attached = lines'.map attached)
    (line : Nat) : attachedStart attached lines line = attachedStart attached lines' line := by
  have hat (i : Nat) : attached ((lines[i]?).getD []) = attached ((lines'[i]?).getD []) := by
    have hi := congrArg (fun l => l[i]?) h
    simp only [List.getElem?_map] at hi
    have hgetD (o : Option Units) : attached (o.getD []) = (o.map attached).getD (attached []) := by
      cases o <;> rfl
    rw [hgetD, hgetD, hi]
  induction line using attachedStart.induct attached lines with
  | case1 => rfl
  | case2 => rfl
  | case3 line ha ih => rw [attachedStart, attachedStart, if_pos ha, if_pos (hat line ▸ ha), ih]
  | case4 line ha => rw [attachedStart, attachedStart, if_neg ha, if_neg (hat line ▸ ha)]

theorem rangesOf_congr (patterns : Patterns) (language : BraceLanguage) (code : Units)
    (starts : List Nat) (h : lines.map patterns.attached = lines'.map patterns.attached) :
    rangesOf patterns language code starts lines =
      rangesOf patterns language code starts lines' := by
  simp only [rangesOf, attachedStart_congr h]

/-! ## What is masked -/

/-- What a masked text says of the file: the pieces of `pieces` that are code
    are unchanged, the others are blank, and every position is in one of them. -/
structure Blanked (source code : Units) (pieces : List (Piece UInt16 Kind)) (strings : Spans) :
    Prop where
  length : code.length = source.length
  breaks : ∀ i : Nat, code[i]? = some newline ↔ source[i]? = some newline
  covered : ∀ i < source.length, ∃ place ∈ placed 0 pieces, place.start ≤ i ∧ i < place.stop
  shown : ∀ place ∈ placed 0 pieces, place.kind = .code →
    ∀ i, place.start ≤ i → i < place.stop → code[i]? = source[i]?
  hidden : ∀ place ∈ placed 0 pieces, place.kind ≠ .code →
    ∀ i, place.start ≤ i → i < place.stop → code[i]? = source[i]?.map blankUnit
  places : (placed 0 pieces).Pairwise fun a b => a.stop ≤ b.start
  literal : ∀ span, span ∈ strings ↔
    ∃ place ∈ placed 0 pieces, place.kind = .literal ∧ (place.start, place.stop) = span
  ordered : strings.Pairwise fun a b => a.2 ≤ b.1
  inside : ∀ span ∈ strings, span.1 ≤ span.2 ∧ span.2 ≤ source.length

/-- The position holds the brace `u` of a piece of code. -/
def CodeBrace (source : Units) (pieces : List (Piece UInt16 Kind)) (u : UInt16) (i : Nat) : Prop :=
  source[i]? = some u ∧
    ∃ place ∈ placed 0 pieces, place.kind = .code ∧ place.start ≤ i ∧ i < place.stop

theorem blankUnit_ne {u v : UInt16} (hs : u ≠ space) (hn : u ≠ newline) : blankUnit v ≠ u := by
  rw [blankUnit]
  split
  · exact fun h => hs h.symm
  · rename_i hv
    exact fun h => hv (h ▸ hn)

theorem blankUnit_newline (u : UInt16) : blankUnit u = newline ↔ u = newline := by
  rw [blankUnit]
  split
  · rename_i h
    exact ⟨fun hs => absurd hs (by decide), fun hn => absurd hn h⟩
  · exact Iff.rfl

theorem masked_newline (pieces : List (Piece UInt16 Kind)) (i : Nat) :
    (masked pieces)[i]? = some newline ↔ (textOf pieces)[i]? = some newline := by
  by_cases hi : i < (textOf pieces).length
  · obtain ⟨place, hplace, hs, he⟩ :=
      exists_placed (Nat.zero_le i) (by rw [Nat.zero_add]; exact hi)
    rw [masked, mask_at hplace hs he]
    cases (textOf pieces)[i]? with
    | none => exact Iff.rfl
    | some u =>
      rw [Option.map_some, Option.some_inj, Option.some_inj]
      split
      · exact blankUnit_newline u
      · exact Iff.rfl
  · rw [List.getElem?_eq_none (Nat.le_of_not_lt hi),
      List.getElem?_eq_none (by rw [masked_length]; exact Nat.le_of_not_lt hi)]

theorem blanked {dialect : BraceDialect} {source : Units} {pieces : List (Piece UInt16 Kind)}
    (h : Lexes dialect source pieces) :
    Blanked source (masked pieces) pieces (literals pieces) where
  length := by rw [masked_length, h.text]
  breaks i := by rw [masked_newline, h.text]
  covered i hi := exists_placed (Nat.zero_le i) (by rw [Nat.zero_add, h.text]; exact hi)
  shown place hplace hkind i hs he := by
    rw [masked, mask_shown hplace hs he (by rw [hkind]; rfl), h.text]
  hidden place hplace hkind i hs he := by
    rw [masked, mask_hidden hplace hs he (decide_eq_true hkind), h.text]
  places := placed_ordered 0 pieces
  literal span := by simp only [literals, mem_spans, decide_eq_true_eq]
  ordered := spans_ordered _ 0 pieces
  inside span hspan := by
    have := spans_inside hspan
    rw [h.text] at this
    omega

theorem masked_brace {dialect : BraceDialect} {source : Units} {pieces : List (Piece UInt16 Kind)}
    (h : Lexes dialect source pieces) {u : UInt16} (hu : u = openBrace ∨ u = closeBrace) {i : Nat}
    (hi : (masked pieces)[i]? = some u) : CodeBrace source pieces u i := by
  have hne : ∀ v, blankUnit v ≠ u := by
    rcases hu with rfl | rfl
    · exact fun v => blankUnit_ne (by decide) (by decide)
    · exact fun v => blankUnit_ne (by decide) (by decide)
  obtain ⟨hsource, place, hplace, hs, he, hkind⟩ := of_mask hne hi
  rw [h.text] at hsource
  exact ⟨hsource, place, hplace, Classical.not_not.1 (of_decide_eq_false hkind), hs, he⟩

theorem blankNonCodeWithSpans_sound {source : Units} {dialect : BraceDialect} {code : Units}
    {strings : Spans} (h : blankNonCodeWithSpans source dialect = some (code, strings)) :
    ∃ pieces, Lexes dialect source pieces ∧ code = masked pieces ∧ strings = literals pieces := by
  obtain ⟨pieces, hlex, hanswer⟩ := blankLoop_sound [] source h
  exact ⟨pieces, hlex, (Prod.mk.inj hanswer).1, (Prod.mk.inj hanswer).2⟩

theorem blankNonCodeWithSpans_complete {source : Units} (language : BraceLanguage)
    {pieces : List (Piece UInt16 Kind)} (h : Lexes language.dialect source pieces)
    (hs : ∀ piece ∈ pieces, Said piece) :
    blankNonCodeWithSpans source language.dialect = some (masked pieces, literals pieces) :=
  blankLoop_complete language.quotes_first h hs []

/-- The ranges of a file depend on its masked text and on which of its lines
    are attached to the next. -/
theorem braceSymbolRanges_congr (patterns : Patterns) (language : BraceLanguage)
    {source source' code : Units} {strings strings' : Spans}
    (h : blankNonCodeWithSpans source language.dialect = some (code, strings))
    (h' : blankNonCodeWithSpans source' language.dialect = some (code, strings'))
    (hlines : (source.splitOn newline).map patterns.attached =
      (source'.splitOn newline).map patterns.attached) :
    braceSymbolRanges patterns source language = braceSymbolRanges patterns source' language := by
  obtain ⟨pieces, hlex, rfl, -⟩ := blankNonCodeWithSpans_sound h
  obtain ⟨pieces', hlex', hcode, -⟩ := blankNonCodeWithSpans_sound h'
  have hstarts : lineStarts source = lineStarts source' := by
    have hb := blanked hlex
    have hb' := blanked hlex'
    rw [← hcode] at hb'
    rw [lineStarts, lineStarts, ← lineStartsFrom_congr hb.length hb.breaks,
      ← lineStartsFrom_congr hb'.length hb'.breaks]
  rw [braceSymbolRanges, braceSymbolRanges, h, h', hstarts]
  simp only [rangesOf_congr patterns language _ _ hlines]

/-- **Masking removes exactly the comments and literals of the dialect's forms**.
    An answer is a reading of the file with its comments and literals blank; a
    file with a reading is answered with it, unless a back-quoted literal holds
    a backslash; the braces of the masked text and the bodies of the located
    declarations are braces of the code, and two files with one masked text
    have the same ranges. -/
theorem masking_exact (patterns : Patterns) (language : BraceLanguage) (source : Units) :
    (∀ code strings, blankNonCodeWithSpans source language.dialect = some (code, strings) →
      ∃ pieces, Lexes language.dialect source pieces ∧ Blanked source code pieces strings ∧
        (∀ u i, u = openBrace ∨ u = closeBrace → code[i]? = some u → CodeBrace source pieces u i) ∧
        (∀ declaration ∈ locate patterns language code, ∀ opened close,
          declaration.body = some (opened, close) →
            CodeBrace source pieces openBrace opened ∧ CodeBrace source pieces closeBrace close) ∧
        ∀ source' strings', blankNonCodeWithSpans source' language.dialect = some (code, strings') →
          (source.splitOn newline).map patterns.attached =
            (source'.splitOn newline).map patterns.attached →
          braceSymbolRanges patterns source language =
            braceSymbolRanges patterns source' language) ∧
    ∀ pieces, Lexes language.dialect source pieces → (∀ piece ∈ pieces, Said piece) →
      blankNonCodeWithSpans source language.dialect = some (masked pieces, literals pieces) := by
  refine ⟨fun code strings h => ?_, fun pieces h hs =>
    blankNonCodeWithSpans_complete language h hs⟩
  obtain ⟨pieces, hlex, rfl, rfl⟩ := blankNonCodeWithSpans_sound h
  refine ⟨pieces, hlex, blanked hlex, fun u i hu hi => masked_brace hlex hu hi, ?_, ?_⟩
  · intro declaration hd opened close hbody
    obtain ⟨hopen, hclose⟩ := locate_braced hd opened close hbody
    exact ⟨masked_brace hlex (.inl rfl) hopen, masked_brace hlex (.inr rfl) hclose⟩
  · exact fun source' strings' h' hlines => braceSymbolRanges_congr patterns language h h' hlines

def noPatterns : Patterns where
  declarations _ := []
  aliases _ := false
  typeGroups _ := []
  startsAt _ := false
  operatorEnd _ := false
  attached _ := false
  arrowBodies := false

theorem masking_exact_charLiteral :
    ∃ pieces, Lexes BraceLanguage.rust.dialect (ascii "f('\x7b'); // \x7d") pieces ∧
      Blanked (ascii "f('\x7b'); // \x7d") (ascii "f(   );     ") pieces [(2, 5)] := by
  obtain ⟨pieces, hlex, hblank, -⟩ :=
    (masking_exact noPatterns .rust (ascii "f('\x7b'); // \x7d")).1 _ _
      (show blankNonCodeWithSpans (ascii "f('\x7b'); // \x7d") BraceLanguage.rust.dialect =
        some (ascii "f(   );     ", [(2, 5)]) by decide +kernel)
  exact ⟨pieces, hlex, hblank⟩

/-! ## A form no dialect has -/

/-- What follows a block comment of a language whose comments nest. -/
def afterNested : Nat → Units → Option Units
  | depth, 47 :: 42 :: rest => afterNested (depth + 1) rest
  | depth, 42 :: 47 :: rest => if depth ≤ 1 then some rest else afterNested (depth - 1) rest
  | depth, _ :: rest => afterNested depth rest
  | _, [] => none

def nestedComment : Units := ascii "/* /* */ \x7b */"

/-- The body of a raw string literal, which has no escapes. -/
def afterRaw : Units → Option Units
  | u :: rest => if u = 34 then some rest else afterRaw rest
  | [] => none

def rawString : Units := ascii "r\"\\\""

/-- **Rust's nested comments and raw strings are not masked**: of a text that
    is one comment a brace is left, and a raw string is refused. -/
theorem masking_misses_nested :
    afterNested 0 nestedComment = some [] ∧
      (blankNonCodeWithSpans nestedComment BraceLanguage.rust.dialect).map (·.1) =
        some (ascii "         \x7b */") ∧
      afterRaw (rawString.drop 2) = some [] ∧
      blankNonCodeWithSpans rawString BraceLanguage.rust.dialect = none := by
  decide +kernel

end AgenticGit.CodeIntelligence.Masking
