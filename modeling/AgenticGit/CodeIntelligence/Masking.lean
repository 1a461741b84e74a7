import AgenticGit.Lib.JsonText
import AgenticGit.Lib.Pieces

/- The blanker of the brace languages (services/code-intelligence/src/symbol-ranges.ts).

   `blankNonCodeWithSpans` goes through a file once and replaces its comments
   and literals by spaces, with one table of line comments and quotes for ten
   languages. The texts are sequences of UTF-16 code units, as the source's
   strings are.

   Correspondence (TypeScript ↔ Lean):
     BraceDialect.lineComments / quotes / charLiterals ↔ `BraceDialect`
     DIALECTS[language] (the three fields above)       ↔ `BraceLanguage.dialect`
     CHAR_LITERAL                                      ↔ `charLiteral`
     the `for (;;)` that ends a quoted literal         ↔ `literalEnd`
     one round of `while (index < source.length)`      ↔ `reading`
     blank / blankNonCodeWithSpans                     ↔ `blank`, `blankLoop`,
                                                         `blankNonCodeWithSpans`

   What is proved: a file is answered with the text and the spans of a reading
   of it as pieces of code, comments and literals (`blankLoop_sound`), and a
   file that can be read so is answered with exactly that (`blankLoop_complete`).
   `Form` says what the pieces of a dialect are, without the scanner. -/
namespace AgenticGit.CodeIntelligence.Masking
open Json Pieces

/-! ## The dialects -/

def newline : UInt16 := 10
def space : UInt16 := 32
def apostrophe : UInt16 := 39
def backslash : UInt16 := 92
def backquote : UInt16 := 96

/-- What opens a comment or a literal: at least one code unit. -/
structure Mark where
  first : UInt16
  others : Units
deriving DecidableEq

def Mark.units (mark : Mark) : Units := mark.first :: mark.others

/-- `rest.startsWith(mark)` -/
def Mark.opens (mark : Mark) (rest : Units) : Bool := mark.units.isPrefixOf rest

def slashes : Mark := ⟨47, [47]⟩
def hash : Mark := ⟨35, []⟩
def attributeMark : Mark := ⟨35, [91]⟩
def blockOpen : Mark := ⟨47, [42]⟩
def blockClose : Mark := ⟨42, [47]⟩
def doubleQuote : Mark := ⟨34, []⟩
def singleQuote : Mark := ⟨apostrophe, []⟩
def backQuote : Mark := ⟨backquote, []⟩
def tripleQuote : Mark := ⟨34, [34, 34]⟩

/-- How a dialect writes its comments and literals. -/
structure BraceDialect where
  lineComments : List Mark
  quotes : List Mark
  charLiterals : Bool := false

inductive BraceLanguage where
  | go | rust | java | csharp | c | cpp | php | swift | kotlin | scala
deriving DecidableEq

/-- `DIALECTS[language]` -/
def BraceLanguage.dialect : BraceLanguage → BraceDialect
  | .go => { lineComments := [slashes], quotes := [doubleQuote, singleQuote, backQuote] }
  | .rust => { lineComments := [slashes], quotes := [doubleQuote], charLiterals := true }
  | .java => { lineComments := [slashes], quotes := [tripleQuote, doubleQuote, singleQuote] }
  | .csharp => { lineComments := [slashes], quotes := [doubleQuote, singleQuote] }
  | .c => { lineComments := [slashes], quotes := [doubleQuote, singleQuote] }
  | .cpp => { lineComments := [slashes], quotes := [doubleQuote, singleQuote] }
  | .php => { lineComments := [slashes, hash], quotes := [doubleQuote, singleQuote] }
  | .swift => { lineComments := [slashes], quotes := [tripleQuote, doubleQuote] }
  | .kotlin =>
    { lineComments := [slashes], quotes := [tripleQuote, doubleQuote], charLiterals := true }
  | .scala =>
    { lineComments := [slashes], quotes := [tripleQuote, doubleQuote], charLiterals := true }

/-! ## The scanner -/

/-- The code units of a text's first code point, in a regular expression with the `u` flag. -/
def codePointLength : Units → Nat
  | u :: v :: _ =>
    if 0xD800 ≤ u ∧ u ≤ 0xDBFF ∧ 0xDC00 ≤ v ∧ v ≤ 0xDFFF then 2 else 1
  | _ => 1

def isHexUnit (u : UInt16) : Bool :=
  (48 ≤ u && u ≤ 57) || (65 ≤ u && u ≤ 70) || (97 ≤ u && u ≤ 102)

/-- A unit `.` does not match. -/
def isLineTerminator (u : UInt16) : Bool := u = 10 || u = 13 || u = 0x2028 || u = 0x2029

/-- `u\{[0-9A-Fa-f]{1,6}\}` at the head of a text: the length it matches. -/
def unicodeEscape (rest : Units) : List Nat :=
  let hexes := ((rest.drop 2).takeWhile isHexUnit).length
  if rest.take 2 = [117, 123] ∧ 1 ≤ hexes ∧ hexes ≤ 6 ∧ (rest.drop (hexes + 2)).head? = some 125
  then [hexes + 3] else []

/-- `.` at the head of a text: the length it matches. -/
def anyPoint : Units → List Nat
  | [] => []
  | v :: rest => if isLineTerminator v then [] else [codePointLength (v :: rest)]

/-- `[^'\\\n]|\\(?:u\{[0-9A-Fa-f]{1,6}\}|.)` at the head of a text: the lengths
    its alternatives match, in order. -/
def charBodies : Units → List Nat
  | [] => []
  | u :: rest =>
    if u = backslash then (unicodeEscape rest ++ anyPoint rest).map (· + 1)
    else if u = apostrophe ∨ u = newline then []
    else [codePointLength (u :: rest)]

/-- `CHAR_LITERAL.exec(rest)`: the length of the literal's body. -/
def charLiteral : Units → Option Nat
  | u :: body =>
    if u = apostrophe then
      (charBodies body).find? fun n => (body.drop n).head? = some apostrophe
    else none
  | [] => none

/-- How far a text goes to the first occurrence of `mark`: `text.indexOf(mark)`. -/
def indexOfMark (mark : Mark) : Units → Option Nat
  | [] => none
  | u :: rest => if mark.opens (u :: rest) then some 0 else (indexOfMark mark rest).map (· + 1)

/-- The literal's length behind its opening quote, without its closing one. -/
def literalEnd (quote : Mark) : Units → Option Nat
  | [] => none
  | u :: rest =>
    if u = backslash ∧ quote.others = [] then
      match rest with
      | [] => none
      | _ :: rest' => (literalEnd quote rest').map (· + 2)
    else if quote.opens (u :: rest) then some 0
    else if u = newline ∧ quote ≠ backQuote ∧ quote.others = [] then none
    else (literalEnd quote rest).map (· + 1)

inductive Kind where
  | code
  | comment
  | literal
deriving DecidableEq

/-- The line-comment marker at the head of `rest`, PHP's `#[` not being one. -/
def BraceDialect.lineCommentAt (dialect : BraceDialect) (rest : Units) : Option Mark :=
  (dialect.lineComments.find? fun marker => marker.opens rest).filter fun line =>
    !(line = hash && attributeMark.opens rest)

/-- The quote at the head of `rest`. -/
def BraceDialect.quoteAt (dialect : BraceDialect) (rest : Units) : Option Mark :=
  dialect.quotes.find? fun mark => mark.opens rest

/-- The character literal at the head of `rest`, in a dialect that has them. -/
def BraceDialect.charLiteralAt (dialect : BraceDialect) (rest : Units) : Option Nat :=
  if dialect.charLiterals then charLiteral rest else none

/-- One round of the scanner at `rest`: what stands there, and how many units
    it has after its first one; nothing when the file is refused. -/
def reading (dialect : BraceDialect) (rest : Units) : Option (Kind × Nat) :=
  if (dialect.lineCommentAt rest).isSome then
    some (.comment, (rest.tail.takeWhile (· ≠ newline)).length)
  else if blockOpen.opens rest then
    (indexOfMark blockClose (rest.drop 2)).map fun n => (.comment, n + 3)
  else
    match dialect.charLiteralAt rest with
    | some n => some (.literal, n + 1)
    | none =>
      match dialect.quoteAt rest with
      | some quote =>
        (literalEnd quote (rest.drop quote.units.length)).map fun n =>
          (.literal, quote.others.length + n + quote.units.length)
      | none => some (.code, 0)

def blankUnit (u : UInt16) : UInt16 := if u ≠ newline then space else u

/-- `blank(from, to)` on `out` -/
def blank (out : Units) (start stop : Nat) : Units :=
  out.mapIdx fun position u => if start ≤ position ∧ position < stop then blankUnit u else u

abbrev Spans := List (Nat × Nat)

/-- `while (index < source.length)` -/
def blankLoop (dialect : BraceDialect) (source : Units) (index : Nat) (out : Units)
    (strings : Spans) : Option (Units × Spans) :=
  if index < source.length then
    match reading dialect (source.drop index) with
    | none => none
    | some (.code, more) => blankLoop dialect source (index + more + 1) out strings
    | some (.comment, more) =>
      blankLoop dialect source (index + more + 1) (blank out index (index + more + 1)) strings
    | some (.literal, more) =>
      blankLoop dialect source (index + more + 1) (blank out index (index + more + 1))
        (strings ++ [(index, index + more + 1)])
  else some (out, strings)
termination_by source.length - index

def blankNonCodeWithSpans (source : Units) (dialect : BraceDialect) : Option (Units × Spans) :=
  blankLoop dialect source 0 source []

example : blankNonCodeWithSpans (ascii "f('\x7b'); // \x7d") BraceLanguage.rust.dialect =
    some (ascii "f(   );     ", [(2, 5)]) := by decide +kernel

/-! ## What the pieces of a dialect are -/

/-- One code point: a code unit or a surrogate pair. -/
inductive CodePoint : Units → Prop
  | unit (u : UInt16) : CodePoint [u]
  | pair {u v : UInt16} (h : 0xD800 ≤ u ∧ u ≤ 0xDBFF ∧ 0xDC00 ≤ v ∧ v ≤ 0xDFFF) :
      CodePoint [u, v]

/-- What stands between the apostrophes of a character literal. -/
inductive CharBody : Units → Prop
  | plain {u : UInt16} {more : Units} (hp : CodePoint (u :: more)) (ha : u ≠ apostrophe)
      (hb : u ≠ backslash) (hn : u ≠ newline) : CharBody (u :: more)
  | unicode {hexes : Units} (hh : ∀ u ∈ hexes, isHexUnit u = true)
      (hl : 1 ≤ hexes.length ∧ hexes.length ≤ 6) :
      CharBody (backslash :: 117 :: 123 :: (hexes ++ [125]))
  | escaped {u : UInt16} {more : Units} (hp : CodePoint (u :: more))
      (ht : isLineTerminator u = false) : CharBody (backslash :: u :: more)

def charText (body : Units) : Units := apostrophe :: (body ++ [apostrophe])

/-- The first `mark` behind an opening one is the one at the end of `body`. -/
def FirstEnd (mark : Mark) (body : Units) : Prop :=
  ¬ mark.units <:+: (body ++ mark.units).dropLast

/-- The body of a literal in a quote of one unit: a backslash takes the next
    unit with it, and only the back quote goes over a line break. A back-quoted
    body with a backslash is none of these. -/
inductive Quoted (quote : Mark) : Units → Prop
  | nil : Quoted quote []
  | unit {u : UInt16} {rest : Units} (hq : u ≠ quote.first) (hb : u ≠ backslash)
      (hn : u = newline → quote = backQuote) (h : Quoted quote rest) : Quoted quote (u :: rest)
  | escape {u : UInt16} {rest : Units} (hr : quote ≠ backQuote) (h : Quoted quote rest) :
      Quoted quote (backslash :: u :: rest)

/-- The body of a literal; one in a longer quote has no escapes. -/
def LiteralBody (quote : Mark) (body : Units) : Prop :=
  (quote.others = [] ∧ Quoted quote body) ∨ (quote.others ≠ [] ∧ FirstEnd quote body)

def BraceDialect.commentAt (dialect : BraceDialect) (text : Units) : Bool :=
  (dialect.lineCommentAt text).isSome || blockOpen.opens text

/-- A character literal of the dialect stands at the head of the text. -/
def BraceDialect.CharLiteralAt (dialect : BraceDialect) (text : Units) : Prop :=
  dialect.charLiterals = true ∧ ∃ body, CharBody body ∧ charText body <+: text

/-- **The pieces of a dialect**: `Form dialect kind piece after` says that
    `piece`, with `after` behind it, is a comment, a literal or a unit of code.
    Of a back-quoted literal with a backslash only the quotes are said. -/
inductive Form (dialect : BraceDialect) : Kind → Units → Units → Prop
  | lineComment {u : UInt16} {line after : Units}
      (hm : (dialect.lineCommentAt (u :: (line ++ after))).isSome = true) (hl : newline ∉ line)
      (ha : ∀ u ∈ after.head?, u = newline) : Form dialect .comment (u :: line) after
  | blockComment {body after : Units}
      (hc : dialect.lineCommentAt (blockOpen.units ++ body ++ blockClose.units ++ after) = none)
      (hb : FirstEnd blockClose body) :
      Form dialect .comment (blockOpen.units ++ body ++ blockClose.units) after
  | charLiteral {body after : Units} (hd : dialect.charLiterals = true) (hb : CharBody body)
      (hc : dialect.commentAt (charText body ++ after) = false) :
      Form dialect .literal (charText body) after
  | quoted {quote : Mark} {body after : Units}
      (hc : dialect.commentAt (quote.units ++ body ++ quote.units ++ after) = false)
      (hl : ¬ dialect.CharLiteralAt (quote.units ++ body ++ quote.units ++ after))
      (hq : dialect.quoteAt (quote.units ++ body ++ quote.units ++ after) = some quote)
      (hb : LiteralBody quote body) :
      Form dialect .literal (quote.units ++ body ++ quote.units) after
  | unsaid {body after : Units}
      (hq : dialect.quoteAt (backQuote.units ++ body ++ backQuote.units ++ after) = some backQuote)
      (hb : backslash ∈ body) :
      Form dialect .literal (backQuote.units ++ body ++ backQuote.units) after
  | code {u : UInt16} {after : Units} (hc : dialect.commentAt (u :: after) = false)
      (hl : ¬ dialect.CharLiteralAt (u :: after)) (hq : dialect.quoteAt (u :: after) = none) :
      Form dialect .code [u] after

/-- A reading of a whole text. -/
inductive Lexes (dialect : BraceDialect) : Units → List (Piece UInt16 Kind) → Prop
  | nil : Lexes dialect [] []
  | cons {kind : Kind} {piece after : Units} {pieces : List (Piece UInt16 Kind)}
      (hf : Form dialect kind piece after) (h : Lexes dialect after pieces) :
      Lexes dialect (piece ++ after) (⟨kind, piece⟩ :: pieces)

/-- The text of a reading with its comments and literals blank. -/
def masked (pieces : List (Piece UInt16 Kind)) : Units :=
  mask blankUnit (fun kind => kind ≠ .code) pieces

def literals (pieces : List (Piece UInt16 Kind)) : Spans :=
  spans (fun kind => kind = .literal) 0 pieces

/-- The piece is no back-quoted literal that holds a backslash. -/
def Said (piece : Piece UInt16 Kind) : Prop :=
  piece.kind = .literal → piece.text.head? = some backquote → backslash ∉ piece.text

theorem Lexes.text {dialect : BraceDialect} {text : Units} {pieces : List (Piece UInt16 Kind)}
    (h : Lexes dialect text pieces) : textOf pieces = text := by
  induction h with
  | nil => rfl
  | cons _ _ ih => rw [textOf_cons, ih]

/-! ## The scanner reads the pieces -/

theorem Mark.opens_iff {mark : Mark} {text : Units} :
    mark.opens text = true ↔ mark.units <+: text :=
  List.isPrefixOf_iff_prefix

theorem Mark.opens_append (mark : Mark) (rest : Units) : mark.opens (mark.units ++ rest) = true :=
  Mark.opens_iff.2 (List.prefix_append _ _)

theorem Mark.drop_units {mark : Mark} {text : Units} (h : mark.opens text = true) :
    mark.units ++ text.drop mark.units.length = text := by
  obtain ⟨rest, rfl⟩ := Mark.opens_iff.1 h
  rw [List.drop_left]

theorem Mark.units_length (mark : Mark) : mark.units.length = mark.others.length + 1 := rfl

theorem takeWhile_line {line after : Units} (hl : newline ∉ line)
    (ha : ∀ u ∈ after.head?, u = newline) :
    (line ++ after).takeWhile (· ≠ newline) = line := by
  have hstop : after.takeWhile (· ≠ newline) = [] := by
    cases after with
    | nil => rfl
    | cons u rest =>
      rw [List.takeWhile_cons_of_neg]
      simp only [ha u rfl, ne_eq, not_true_eq_false, decide_false, Bool.false_eq_true,
        not_false_eq_true]
  rw [List.takeWhile_append_of_pos, hstop, List.append_nil]
  intro u hu
  exact decide_eq_true fun h => hl (h ▸ hu)

/-! ### The first closing mark -/

theorem not_infix_dropLast (mark : Mark) : ¬ mark.units <:+: mark.units.dropLast := by
  intro h
  have := h.length_le
  rw [List.length_dropLast, mark.units_length] at this
  omega

theorem firstEnd_nil (mark : Mark) : FirstEnd mark [] := not_infix_dropLast mark

theorem firstEnd_cons {mark : Mark} {u : UInt16} {body : Units} :
    FirstEnd mark (u :: body) ↔
      ¬ mark.units <+: u :: (body ++ mark.units).dropLast ∧ FirstEnd mark body := by
  have hne : body ++ mark.units ≠ [] := by
    intro h
    exact List.cons_ne_nil _ _ (List.append_eq_nil_iff.1 h).2
  rw [FirstEnd, FirstEnd, List.cons_append, List.dropLast_cons_of_ne_nil hne,
    List.infix_cons_iff, not_or]

theorem append_of_opens {mark : Mark} {u : UInt16} {body after : Units}
    (h : mark.units <+: u :: (body ++ mark.units).dropLast) :
    mark.units <+: u :: (body ++ mark.units ++ after) := by
  refine h.trans ?_
  rw [List.prefix_cons_inj]
  exact (List.dropLast_prefix _).trans (List.prefix_append _ _)

theorem opens_of_append {mark : Mark} {u : UInt16} {body after : Units}
    (h : mark.units <+: u :: (body ++ mark.units ++ after)) :
    mark.units <+: u :: (body ++ mark.units).dropLast := by
  refine List.prefix_of_prefix_length_le h ?_ ?_
  · rw [List.prefix_cons_inj]
    exact (List.dropLast_prefix _).trans (List.prefix_append _ _)
  · rw [List.length_cons, List.length_dropLast, List.length_append, mark.units_length]
    omega

/-- **Where the first mark stands**. -/
theorem indexOfMark_iff {mark : Mark} {text : Units} {n : Nat} :
    indexOfMark mark text = some n ↔
      ∃ body after, text = body ++ mark.units ++ after ∧ body.length = n ∧ FirstEnd mark body := by
  induction text generalizing n with
  | nil =>
    refine ⟨(fun h => by cases h), ?_⟩
    rintro ⟨body, after, h, -, -⟩
    have := congrArg List.length h
    rw [List.length_append, List.length_append, mark.units_length, List.length_nil] at this
    omega
  | cons u rest ih =>
    rw [indexOfMark]
    by_cases ho : mark.opens (u :: rest) = true
    · rw [if_pos ho]
      obtain ⟨after, ha⟩ := Mark.opens_iff.1 ho
      constructor
      · intro h
        cases h
        exact ⟨[], after, ha.symm, rfl, firstEnd_nil mark⟩
      · rintro ⟨body, after', htext, rfl, hfirst⟩
        cases body with
        | nil => rfl
        | cons v body =>
          rw [List.cons_append, List.cons_append] at htext
          injection htext with hv hrest
          subst hv
          rw [hrest] at ho
          exact absurd (opens_of_append (Mark.opens_iff.1 ho)) (firstEnd_cons.1 hfirst).1
    · rw [if_neg ho, Option.map_eq_some_iff]
      constructor
      · rintro ⟨m, hm, rfl⟩
        obtain ⟨body, after, rfl, rfl, hfirst⟩ := ih.1 hm
        refine ⟨u :: body, after, rfl, rfl, firstEnd_cons.2 ⟨fun hp => ho ?_, hfirst⟩⟩
        exact Mark.opens_iff.2 (append_of_opens hp)
      · rintro ⟨body, after, htext, rfl, hfirst⟩
        cases body with
        | nil =>
          rw [List.nil_append] at htext
          exact absurd (htext ▸ mark.opens_append after) ho
        | cons v body =>
          rw [List.cons_append, List.cons_append] at htext
          injection htext with hv hrest
          exact ⟨body.length, ih.2 ⟨body, after, hrest, rfl, (firstEnd_cons.1 hfirst).2⟩, rfl⟩

/-! ### The end of a literal -/

theorem literalEnd_eq_indexOfMark {quote : Mark} (hq : quote.others ≠ []) (text : Units) :
    literalEnd quote text = indexOfMark quote text := by
  induction text with
  | nil => rfl
  | cons u rest ih =>
    rw [literalEnd.eq_def, indexOfMark]
    simp only [hq, and_false, if_false, ih]

section Single

variable {quote : Mark} (hsingle : quote.others = [])

theorem opens_cons (hsingle : quote.others = []) (u : UInt16) (rest : Units) :
    quote.opens (u :: rest) = true ↔ u = quote.first := by
  rw [Mark.opens_iff, Mark.units, hsingle, List.cons_prefix_cons]
  exact ⟨fun h => h.1.symm, fun h => ⟨h.symm, List.nil_prefix⟩⟩

include hsingle

theorem literalEnd_escape (u : UInt16) (rest : Units) :
    literalEnd quote (backslash :: u :: rest) = (literalEnd quote rest).map (· + 2) := by
  rw [literalEnd.eq_def]
  exact if_pos ⟨rfl, hsingle⟩

theorem literalEnd_unit {u : UInt16} {rest : Units} (hb : u ≠ backslash) (hq : u ≠ quote.first)
    (hn : u = newline → quote = backQuote) :
    literalEnd quote (u :: rest) = (literalEnd quote rest).map (· + 1) := by
  rw [literalEnd.eq_def]
  refine (if_neg fun h => hb h.1).trans ?_
  refine (if_neg fun h => hq ((opens_cons hsingle u rest).1 h)).trans ?_
  exact if_neg fun h => h.2.1 (hn h.1)

theorem literalEnd_sound {text : Units} {n : Nat} (h : literalEnd quote text = some n) :
    ∃ body after, text = body ++ quote.units ++ after ∧ body.length = n ∧
      (Quoted quote body ∨ quote = backQuote ∧ backslash ∈ body) := by
  fun_induction literalEnd quote text generalizing n with
  | case1 => cases h
  | case2 u hu => cases h
  | case3 u hu v rest ih =>
    obtain ⟨m, hm, rfl⟩ := Option.map_eq_some_iff.1 h
    obtain ⟨body, after, rfl, rfl, hbody⟩ := ih hm
    obtain ⟨rfl, -⟩ := hu
    refine ⟨backslash :: v :: body, after, rfl, rfl, ?_⟩
    by_cases hr : quote = backQuote
    · exact .inr ⟨hr, List.mem_cons_self⟩
    · exact .inl (.escape hr (hbody.resolve_right fun h => hr h.1))
  | case4 u rest hu ho =>
    cases h
    obtain ⟨after, ha⟩ := Mark.opens_iff.1 ho
    exact ⟨[], after, ha.symm, rfl, .inl .nil⟩
  | case5 u rest hu ho hn => cases h
  | case6 u rest hu ho hn ih =>
    obtain ⟨m, hm, rfl⟩ := Option.map_eq_some_iff.1 h
    obtain ⟨body, after, rfl, rfl, hbody⟩ := ih hm
    refine ⟨u :: body, after, rfl, rfl, ?_⟩
    rcases hbody with hbody | ⟨hr, hb⟩
    · refine .inl (.unit ?_ ?_ ?_ hbody)
      · exact fun h => ho ((opens_cons hsingle u _).2 h)
      · exact fun h => hu ⟨h, hsingle⟩
      · exact fun h => Classical.not_not.1 fun hr => hn ⟨h, hr, hsingle⟩
    · exact .inr ⟨hr, List.mem_cons_of_mem _ hb⟩

theorem literalEnd_complete {body after : Units} (hq : quote.first ≠ backslash)
    (h : Quoted quote body) :
    literalEnd quote (body ++ quote.units ++ after) = some body.length := by
  induction h with
  | nil =>
    rw [List.nil_append, Mark.units, hsingle, List.cons_append, literalEnd.eq_def]
    exact (if_neg fun h => hq h.1).trans (if_pos ((opens_cons hsingle _ _).2 rfl))
  | unit hu hb hn _ ih =>
    rw [List.cons_append, List.cons_append, literalEnd_unit hsingle hb hu hn, ih]
    rfl
  | escape hr _ ih =>
    rw [List.cons_append, List.cons_append, List.cons_append, List.cons_append,
      literalEnd_escape hsingle, ih]
    rfl

end Single

/-! ### Character literals -/

theorem codePointLength_cons (u : UInt16) (rest : Units) :
    ∃ more after, rest = more ++ after ∧ CodePoint (u :: more) ∧
      codePointLength (u :: rest) = (u :: more).length := by
  cases rest with
  | nil => exact ⟨[], [], rfl, .unit u, rfl⟩
  | cons v rest =>
    rw [codePointLength]
    split
    · rename_i h
      exact ⟨[v], rest, rfl, .pair h, rfl⟩
    · exact ⟨[], v :: rest, rfl, .unit u, rfl⟩

theorem codePointLength_append {c : Units} (h : CodePoint c) (after : Units) :
    codePointLength (c ++ apostrophe :: after) = c.length := by
  cases h with
  | unit u => exact if_neg fun h => absurd h.2.2.1 (by decide)
  | pair h => exact if_pos h

theorem charBodies_plain {u : UInt16} (rest : Units) (hb : u ≠ backslash) (ha : u ≠ apostrophe)
    (hn : u ≠ newline) : charBodies (u :: rest) = [codePointLength (u :: rest)] := by
  rw [charBodies, if_neg hb, if_neg (not_or.2 ⟨ha, hn⟩)]

theorem charBodies_escape (rest : Units) :
    charBodies (backslash :: rest) = (unicodeEscape rest ++ anyPoint rest).map (· + 1) := by
  rw [charBodies, if_pos rfl]

theorem mem_unicodeEscape {rest : Units} {n : Nat} (h : n ∈ unicodeEscape rest) :
    ∃ hexes after, rest = 117 :: 123 :: (hexes ++ 125 :: after) ∧ n = hexes.length + 3 ∧
      (∀ u ∈ hexes, isHexUnit u = true) ∧ 1 ≤ hexes.length ∧ hexes.length ≤ 6 := by
  rw [unicodeEscape] at h
  split at h
  · rename_i hc
    obtain ⟨htwo, hmin, hmax, hclose⟩ := hc
    cases List.mem_singleton.1 h
    have hrest : rest = 117 :: 123 :: rest.drop 2 := by
      conv => lhs; rw [← List.take_append_drop 2 rest, htwo]
      rfl
    have hhex := List.takeWhile_append_dropWhile (p := isHexUnit) (l := rest.drop 2)
    have hdrop : (rest.drop 2).dropWhile isHexUnit =
        rest.drop (((rest.drop 2).takeWhile isHexUnit).length + 2) := by
      have hcut := congrArg (List.drop ((rest.drop 2).takeWhile isHexUnit).length) hhex
      rw [List.drop_left, List.drop_drop] at hcut
      rw [hcut, Nat.add_comm]
    rw [← hdrop] at hclose
    cases hafter : (rest.drop 2).dropWhile isHexUnit with
    | nil => rw [hafter] at hclose; cases hclose
    | cons v after =>
      rw [hafter] at hclose hhex
      cases hclose
      refine ⟨(rest.drop 2).takeWhile isHexUnit, after, ?_, rfl,
        fun u hu => List.mem_takeWhile_imp hu, hmin, hmax⟩
      rw [hhex]
      exact hrest
  · cases h

theorem unicodeEscape_append {hexes after : Units} (hh : ∀ u ∈ hexes, isHexUnit u = true)
    (hl : 1 ≤ hexes.length ∧ hexes.length ≤ 6) :
    unicodeEscape (117 :: 123 :: (hexes ++ 125 :: after)) = [hexes.length + 3] := by
  have hhex : ((hexes ++ 125 :: after).takeWhile isHexUnit) = hexes := by
    rw [List.takeWhile_append_of_pos hh, List.takeWhile_cons_of_neg (by decide), List.append_nil]
  have hdrop : (117 :: 123 :: (hexes ++ 125 :: after)).drop 2 = hexes ++ 125 :: after := rfl
  simp only [unicodeEscape, hdrop, hhex]
  refine if_pos ⟨rfl, hl.1, hl.2, ?_⟩
  rw [Nat.add_comm, ← List.drop_drop, hdrop, List.drop_left]
  rfl

theorem charBodies_sound {text : Units} {n : Nat} (hn : n ∈ charBodies text) :
    ∃ body after, text = body ++ after ∧ body.length = n ∧ CharBody body := by
  cases text with
  | nil => cases hn
  | cons u rest =>
    by_cases hb : u = backslash
    · subst hb
      rw [charBodies_escape] at hn
      obtain ⟨m, hm, rfl⟩ := List.mem_map.1 hn
      rcases List.mem_append.1 hm with hm | hm
      · obtain ⟨hexes, after, rfl, rfl, hhex, hlen⟩ := mem_unicodeEscape hm
        refine ⟨backslash :: 117 :: 123 :: (hexes ++ [125]), after, ?_, ?_, .unicode hhex hlen⟩
        · simp only [List.cons_append, List.append_assoc, List.nil_append]
        · simp only [List.length_cons, List.length_append, List.length_nil]
      · cases rest with
        | nil => cases hm
        | cons v rest =>
          rw [anyPoint] at hm
          split at hm
          · cases hm
          · rename_i ht
            cases List.mem_singleton.1 hm
            obtain ⟨more, after, rfl, hp, hlen⟩ := codePointLength_cons v rest
            exact ⟨backslash :: v :: more, after, rfl, by rw [hlen]; rfl,
              .escaped hp (Bool.eq_false_iff.2 ht)⟩
    · by_cases ha : u = apostrophe ∨ u = newline
      · rw [charBodies, if_neg hb, if_pos ha] at hn
        cases hn
      · rw [charBodies, if_neg hb, if_neg ha] at hn
        cases List.mem_singleton.1 hn
        obtain ⟨more, after, rfl, hp, hlen⟩ := codePointLength_cons u rest
        exact ⟨u :: more, after, rfl, hlen.symm,
          .plain hp (fun h => ha (.inl h)) hb (fun h => ha (.inr h))⟩

theorem charBodies_complete {body : Units} (h : CharBody body) (after : Units) :
    body.length ∈ charBodies (body ++ apostrophe :: after) ∧
      ∀ n ∈ charBodies (body ++ apostrophe :: after),
        ((body ++ apostrophe :: after).drop n).head? = some apostrophe → n = body.length := by
  cases h with
  | @plain u more hp ha hb hn =>
    have hlen := codePointLength_append hp after
    rw [List.cons_append] at hlen ⊢
    rw [charBodies_plain _ hb ha hn, hlen]
    exact ⟨List.mem_singleton_self _, fun n hn _ => List.mem_singleton.1 hn⟩
  | @unicode hexes hh hl =>
    have htext : backslash :: 117 :: 123 :: (hexes ++ [125]) ++ apostrophe :: after =
        backslash :: 117 :: 123 :: (hexes ++ 125 :: apostrophe :: after) := by
      simp only [List.cons_append, List.append_assoc, List.nil_append]
    have hlen : (backslash :: 117 :: 123 :: (hexes ++ [125])).length = hexes.length + 3 + 1 := by
      simp only [List.length_cons, List.length_append, List.length_nil]
    rw [htext, hlen, charBodies_escape, unicodeEscape_append hh hl]
    refine ⟨List.mem_map_of_mem (List.mem_append_left _ (List.mem_singleton_self _)), ?_⟩
    intro n hn hclose
    obtain ⟨m, hm, rfl⟩ := List.mem_map.1 hn
    rcases List.mem_append.1 hm with hm | hm
    · rw [List.mem_singleton.1 hm]
    · -- the escaped `u` alone is followed by the brace
      cases List.mem_singleton.1 (show m ∈ [1] from hm)
      exact absurd (Option.some.inj hclose) (by decide)
  | @escaped u more hp ht =>
    have hlen := codePointLength_append hp after
    have hany : anyPoint (u :: more ++ apostrophe :: after) = [(u :: more).length] := by
      rw [List.cons_append, anyPoint, if_neg (ht ▸ Bool.false_ne_true), ← List.cons_append, hlen]
    rw [List.cons_append, charBodies_escape, hany]
    refine ⟨List.mem_map_of_mem (List.mem_append_right _ (List.mem_singleton_self _)), ?_⟩
    intro n hn _
    obtain ⟨m, hm, rfl⟩ := List.mem_map.1 hn
    rcases List.mem_append.1 hm with hm | hm
    · -- behind the escaped unit stands the closing apostrophe, not a brace
      obtain ⟨hexes, rest, htext, -, -, -⟩ := mem_unicodeEscape hm
      cases hp with
      | unit u => exact absurd (List.cons.inj (List.cons.inj htext).2).1 (by decide)
      | pair hp =>
        rw [(List.cons.inj htext).1] at hp
        exact absurd hp.1 (by decide)
    · rw [List.mem_singleton.1 hm]
      rfl

/-- **The character literals the pattern finds**. -/
theorem charLiteral_iff {text : Units} {n : Nat} :
    charLiteral text = some n ↔
      ∃ body after, text = charText body ++ after ∧ body.length = n ∧ CharBody body := by
  constructor
  · intro h
    cases text with
    | nil => cases h
    | cons u rest =>
      rw [charLiteral] at h
      split at h
      · rename_i hu
        subst hu
        obtain ⟨body, after, rfl, rfl, hbody⟩ := charBodies_sound (List.mem_of_find?_eq_some h)
        have hclose := List.find?_some h
        rw [List.drop_left, decide_eq_true_eq] at hclose
        cases after with
        | nil => cases hclose
        | cons v after =>
          cases hclose
          refine ⟨body, after, ?_, rfl, hbody⟩
          simp only [charText, List.cons_append, List.append_assoc, List.nil_append]
      · cases h
  · rintro ⟨body, after, rfl, rfl, hbody⟩
    obtain ⟨hmem, honly⟩ := charBodies_complete hbody after
    have htext : charText body ++ after = apostrophe :: (body ++ apostrophe :: after) := by
      simp only [charText, List.cons_append, List.append_assoc, List.nil_append]
    rw [htext, charLiteral, if_pos rfl]
    cases hf : (charBodies (body ++ apostrophe :: after)).find? fun n =>
        ((body ++ apostrophe :: after).drop n).head? = some apostrophe with
    | none =>
      have hopen := List.find?_eq_none.1 hf _ hmem
      rw [List.drop_left, decide_eq_true_eq] at hopen
      exact absurd rfl hopen
    | some n =>
      have hclose := List.find?_some hf
      rw [decide_eq_true_eq] at hclose
      rw [honly n (List.mem_of_find?_eq_some hf) hclose]

/-! ### One round -/

theorem charLiteralAt_iff {dialect : BraceDialect} {text : Units} :
    dialect.CharLiteralAt text ↔ (dialect.charLiteralAt text).isSome = true := by
  rw [BraceDialect.charLiteralAt, BraceDialect.CharLiteralAt]
  cases dialect.charLiterals with
  | false => exact ⟨(fun h => absurd h.1 Bool.false_ne_true), (fun h => by cases h)⟩
  | true =>
    rw [if_pos rfl, Option.isSome_iff_exists]
    constructor
    · rintro ⟨-, body, hbody, after, rfl⟩
      exact ⟨body.length, charLiteral_iff.2 ⟨body, after, rfl, rfl, hbody⟩⟩
    · rintro ⟨n, hn⟩
      obtain ⟨body, after, rfl, -, hbody⟩ := charLiteral_iff.1 hn
      exact ⟨rfl, body, hbody, List.prefix_append _ _⟩

theorem reading_no_comment {dialect : BraceDialect} {text : Units}
    (hc : dialect.commentAt text = false) :
    reading dialect text = match dialect.charLiteralAt text with
      | some n => some (.literal, n + 1)
      | none =>
        match dialect.quoteAt text with
        | some quote =>
          (literalEnd quote (text.drop quote.units.length)).map fun n =>
            (.literal, quote.others.length + n + quote.units.length)
        | none => some (.code, 0) := by
  obtain ⟨hline, hblock⟩ := Bool.or_eq_false_iff.1 hc
  rw [reading, hline, hblock]
  rfl

theorem quoteAt_some {dialect : BraceDialect} {text : Units} {quote : Mark}
    (h : dialect.quoteAt text = some quote) :
    quote ∈ dialect.quotes ∧ quote.opens text = true := by
  rw [BraceDialect.quoteAt] at h
  have hopen := List.find?_some h
  exact ⟨List.mem_of_find?_eq_some h, hopen⟩

/-- **What a round reads is a piece of the dialect**. -/
theorem reading_sound {dialect : BraceDialect} {text : Units} {kind : Kind} {more : Nat}
    (hne : text ≠ []) (h : reading dialect text = some (kind, more)) :
    ∃ piece after, text = piece ++ after ∧ piece.length = more + 1 ∧
      Form dialect kind piece after := by
  by_cases hline : (dialect.lineCommentAt text).isSome = true
  · rw [reading, if_pos hline] at h
    cases h
    cases text with
    | nil => exact absurd rfl hne
    | cons u rest =>
      have hcut := List.takeWhile_append_dropWhile (p := fun u => decide (u ≠ newline)) (l := rest)
      refine ⟨u :: rest.takeWhile (· ≠ newline), rest.dropWhile (· ≠ newline), ?_, rfl,
        .lineComment ?_ ?_ ?_⟩
      · rw [List.cons_append, hcut]
      · rw [hcut]
        exact hline
      · intro hmem
        have hother := List.mem_takeWhile_imp hmem
        exact absurd rfl (of_decide_eq_true hother)
      · intro v hv
        have := List.head?_dropWhile_not (fun u => decide (u ≠ newline)) rest
        rw [Option.mem_def.1 hv] at this
        exact Classical.not_not.1 (of_decide_eq_false this)
  by_cases hblock : blockOpen.opens text = true
  · rw [reading, if_neg hline, if_pos hblock] at h
    obtain ⟨n, hn, hread⟩ := Option.map_eq_some_iff.1 h
    cases hread
    obtain ⟨body, after, hdrop, rfl, hfirst⟩ := indexOfMark_iff.1 hn
    have htext : text = blockOpen.units ++ body ++ blockClose.units ++ after := by
      rw [← Mark.drop_units hblock, List.append_assoc, List.append_assoc, ← List.append_assoc body,
        ← hdrop]
      rfl
    refine ⟨blockOpen.units ++ body ++ blockClose.units, after, htext, ?_, .blockComment ?_ hfirst⟩
    · rw [List.length_append, List.length_append, Mark.units_length, Mark.units_length]
      show 1 + 1 + body.length + (1 + 1) = body.length + 3 + 1
      omega
    · rw [← htext]
      exact Option.not_isSome_iff_eq_none.1 hline
  have hc : dialect.commentAt text = false :=
    Bool.or_eq_false_iff.2 ⟨Bool.eq_false_iff.2 hline, Bool.eq_false_iff.2 hblock⟩
  rw [reading_no_comment hc] at h
  cases hchar : dialect.charLiteralAt text with
  | some n =>
    rw [hchar] at h
    cases h
    rw [BraceDialect.charLiteralAt] at hchar
    split at hchar
    · rename_i hd
      obtain ⟨body, after, rfl, rfl, hbody⟩ := charLiteral_iff.1 hchar
      refine ⟨charText body, after, rfl, ?_, .charLiteral hd hbody hc⟩
      rw [charText, List.length_cons, List.length_append]
      rfl
    · cases hchar
  | none =>
    have hl : ¬ dialect.CharLiteralAt text := by
      rw [charLiteralAt_iff, hchar]
      exact Bool.false_ne_true
    rw [hchar] at h
    cases hq : dialect.quoteAt text with
    | none =>
      rw [hq] at h
      cases h
      cases text with
      | nil => exact absurd rfl hne
      | cons u rest => exact ⟨[u], rest, rfl, rfl, .code hc hl hq⟩
    | some quote =>
      rw [hq] at h
      obtain ⟨n, hn, hread⟩ := Option.map_eq_some_iff.1 h
      cases hread
      have hopen := (quoteAt_some hq).2
      have hbody : ∃ body after, text.drop quote.units.length = body ++ quote.units ++ after ∧
          body.length = n ∧ (LiteralBody quote body ∨ quote = backQuote ∧ backslash ∈ body) := by
        by_cases hs : quote.others = []
        · obtain ⟨body, after, hdrop, hlen, hbody⟩ := literalEnd_sound hs hn
          exact ⟨body, after, hdrop, hlen, hbody.imp_left fun h => .inl ⟨hs, h⟩⟩
        · rw [literalEnd_eq_indexOfMark hs] at hn
          obtain ⟨body, after, hdrop, hlen, hfirst⟩ := indexOfMark_iff.1 hn
          exact ⟨body, after, hdrop, hlen, .inl (.inr ⟨hs, hfirst⟩)⟩
      obtain ⟨body, after, hdrop, rfl, hbody⟩ := hbody
      have htext : text = quote.units ++ body ++ quote.units ++ after := by
        rw [← Mark.drop_units hopen, hdrop, ← List.append_assoc, ← List.append_assoc]
      refine ⟨quote.units ++ body ++ quote.units, after, htext, ?_, ?_⟩
      · rw [List.length_append, List.length_append, quote.units_length]
        omega
      rcases hbody with hbody | ⟨rfl, hb⟩
      · exact .quoted (htext ▸ hc) (htext ▸ hl) (htext ▸ hq) hbody
      · exact .unsaid (htext ▸ hq) hb

/-- **A piece of the dialect is read**, where its quotes are no backslashes. -/
theorem reading_complete {dialect : BraceDialect}
    (hfirst : ∀ q ∈ dialect.quotes, q.first ≠ backslash) {kind : Kind} {piece after : Units} (hf : Form dialect kind piece after)
    (hs : Said ⟨kind, piece⟩) :
    ∃ more, reading dialect (piece ++ after) = some (kind, more) ∧ piece.length = more + 1 := by
  cases hf with
  | @lineComment u line _ hm hl ha =>
    refine ⟨line.length, ?_, rfl⟩
    rw [List.cons_append, reading, if_pos hm, List.tail_cons, takeWhile_line hl ha]
  | @blockComment body _ hc hb =>
    have htext : blockOpen.units ++ body ++ blockClose.units ++ after =
        blockOpen.units ++ (body ++ blockClose.units ++ after) := by
      simp only [List.append_assoc]
    have hopen : blockOpen.opens (blockOpen.units ++ body ++ blockClose.units ++ after) = true := by
      rw [htext]
      exact Mark.opens_append _ _
    refine ⟨body.length + 3, ?_, ?_⟩
    · rw [reading, hc, if_neg (by exact Bool.false_ne_true), if_pos hopen, htext]
      have hdrop : (blockOpen.units ++ (body ++ blockClose.units ++ after)).drop 2 =
          body ++ blockClose.units ++ after := rfl
      rw [hdrop, indexOfMark_iff.2 ⟨body, after, rfl, rfl, hb⟩]
      rfl
    · rw [List.length_append, List.length_append, Mark.units_length, Mark.units_length]
      show 1 + 1 + body.length + (1 + 1) = body.length + 3 + 1
      omega
  | @charLiteral body _ hd hb hc =>
    refine ⟨body.length + 1, ?_, ?_⟩
    · have hchar : dialect.charLiteralAt (charText body ++ after) = some body.length := by
        rw [BraceDialect.charLiteralAt, if_pos hd]
        exact charLiteral_iff.2 ⟨body, after, rfl, rfl, hb⟩
      rw [reading_no_comment hc, hchar]
    · rw [charText, List.length_cons, List.length_append]
      rfl
  | @quoted quote body _ hc hl hq hb =>
    refine ⟨quote.others.length + body.length + quote.units.length, ?_, ?_⟩
    · have hchar : dialect.charLiteralAt (quote.units ++ body ++ quote.units ++ after) = none := by
        rw [charLiteralAt_iff] at hl
        exact Option.not_isSome_iff_eq_none.1 hl
      have hdrop : (quote.units ++ body ++ quote.units ++ after).drop quote.units.length =
          body ++ quote.units ++ after := by
        rw [List.append_assoc, List.append_assoc, List.drop_left, List.append_assoc]
      have hend : literalEnd quote (body ++ quote.units ++ after) = some body.length := by
        rcases hb with ⟨hs, hb⟩ | ⟨hs, hb⟩
        · exact literalEnd_complete hs (hfirst quote (quoteAt_some hq).1) hb
        · rw [literalEnd_eq_indexOfMark hs]
          exact indexOfMark_iff.2 ⟨body, after, rfl, rfl, hb⟩
      rw [reading_no_comment hc, hchar, hq]
      simp only [hdrop, hend, Option.map_some]
    · rw [List.length_append, List.length_append, quote.units_length]
      omega
  | @unsaid body _ hq hb =>
    refine absurd ?_ (hs rfl rfl)
    exact List.mem_append_left _ (List.mem_append_right _ hb)
  | @code u _ hc hl hq =>
    refine ⟨0, ?_, rfl⟩
    rw [charLiteralAt_iff] at hl
    rw [List.singleton_append, reading_no_comment hc, Option.not_isSome_iff_eq_none.1 hl, hq]

/-! ## The whole file -/

theorem mapIdx_eq_map {α : Type} {l : List α} {f : Nat → α → α} {g : α → α}
    (h : ∀ i < l.length, ∀ a, f i a = g a) : l.mapIdx f = l.map g := by
  refine List.ext_getElem (by rw [List.length_mapIdx, List.length_map]) fun i hi _ => ?_
  rw [List.length_mapIdx] at hi
  rw [List.getElem_mapIdx, List.getElem_map, h i hi]

theorem blank_middle (before piece after : Units) :
    blank (before ++ piece ++ after) before.length (before.length + piece.length) =
      before ++ piece.map blankUnit ++ after := by
  rw [blank, List.mapIdx_append, List.mapIdx_append]
  congr 1
  · congr 1
    · refine (mapIdx_eq_map (fun i hi u => ?_)).trans (List.map_id before)
      exact if_neg fun h => by omega
    · exact mapIdx_eq_map fun i hi u => if_pos ⟨by omega, by omega⟩
  · refine (mapIdx_eq_map (fun i hi u => ?_)).trans (List.map_id after)
    rw [List.length_append]
    exact if_neg fun h => by omega

theorem masked_append (ps qs : List (Piece UInt16 Kind)) :
    masked (ps ++ qs) = masked ps ++ masked qs := mask_append _ _ _ _

theorem masked_length (pieces : List (Piece UInt16 Kind)) :
    (masked pieces).length = (textOf pieces).length := mask_length _ _ _

theorem masked_single (kind : Kind) (piece : Units) :
    masked [⟨kind, piece⟩] = if kind = .code then piece else piece.map blankUnit := by
  rw [masked, mask_single]
  cases kind <;> rfl

theorem literals_snoc (done : List (Piece UInt16 Kind)) (kind : Kind) (piece : Units) :
    literals (done ++ [⟨kind, piece⟩]) =
      literals done ++ if kind = .literal then
        [((textOf done).length, (textOf done).length + piece.length)] else [] := by
  rw [literals, spans_append, Nat.zero_add, spans_single]
  cases kind <;> rfl

/-- **A round of the scanner**, on a text of which the pieces `done` are read. -/
theorem blankLoop_step {dialect : BraceDialect} {done : List (Piece UInt16 Kind)} {kind : Kind}
    {piece after : Units} {more : Nat} (hlen : piece.length = more + 1)
    (hread : reading dialect (piece ++ after) = some (kind, more)) :
    blankLoop dialect (textOf done ++ (piece ++ after)) (textOf done).length
        (masked done ++ (piece ++ after)) (literals done) =
      blankLoop dialect (textOf (done ++ [⟨kind, piece⟩]) ++ after)
        (textOf (done ++ [⟨kind, piece⟩])).length (masked (done ++ [⟨kind, piece⟩]) ++ after)
        (literals (done ++ [⟨kind, piece⟩])) := by
  have htext : textOf (done ++ [⟨kind, piece⟩]) ++ after = textOf done ++ (piece ++ after) := by
    rw [textOf_append, textOf_cons, textOf_nil, List.append_nil, List.append_assoc]
  have hstop : (textOf (done ++ [⟨kind, piece⟩])).length = (textOf done).length + more + 1 := by
    rw [textOf_append, textOf_cons, textOf_nil, List.append_nil, List.length_append, hlen,
      Nat.add_assoc]
  have hlt : (textOf done).length < (textOf done ++ (piece ++ after)).length := by
    rw [List.length_append, List.length_append]
    omega
  have hblank : blank (masked done ++ (piece ++ after)) (textOf done).length
      ((textOf done).length + more + 1) = masked done ++ piece.map blankUnit ++ after := by
    have := blank_middle (masked done) piece after
    rw [masked_length, hlen, List.append_assoc (masked done) piece after] at this
    exact this
  rw [htext, hstop, blankLoop, if_pos hlt, List.drop_left, hread, masked_append, masked_single,
    literals_snoc, hlen]
  cases kind with
  | code => simp only [if_true, reduceCtorEq, if_false, List.append_nil, List.append_assoc]
  | comment => simp only [reduceCtorEq, if_false, hblank, List.append_nil]
  | literal =>
    simp only [reduceCtorEq, if_false, if_true, hblank]
    rw [Nat.add_assoc]

theorem blankLoop_end (dialect : BraceDialect) (done : List (Piece UInt16 Kind)) :
    blankLoop dialect (textOf done ++ []) (textOf done).length (masked done ++ []) (literals done) =
      some (masked done, literals done) := by
  rw [List.append_nil, List.append_nil, blankLoop, if_neg (Nat.lt_irrefl _)]

/-- **An answer is a reading of the file**. -/
theorem blankLoop_sound {dialect : BraceDialect} (done : List (Piece UInt16 Kind)) (text : Units)
    {answer : Units × Spans}
    (h : blankLoop dialect (textOf done ++ text) (textOf done).length (masked done ++ text)
      (literals done) = some answer) :
    ∃ pieces, Lexes dialect text pieces ∧
      answer = (masked (done ++ pieces), literals (done ++ pieces)) := by
  induction hn : text.length using Nat.strong_induction_on generalizing done text with
  | _ n ih =>
    by_cases hne : text = []
    · subst hne
      rw [blankLoop_end] at h
      exact ⟨[], .nil, by rw [List.append_nil]; exact (Option.some.inj h).symm⟩
    cases hread : reading dialect text with
    | none =>
      have hlt : (textOf done).length < (textOf done ++ text).length := by
        rw [List.length_append]
        have := List.length_pos_iff.2 hne
        omega
      rw [blankLoop, if_pos hlt, List.drop_left, hread] at h
      cases h
    | some found =>
      obtain ⟨piece, after, rfl, hlen, hform⟩ := reading_sound hne hread
      rw [blankLoop_step hlen hread] at h
      have hless : after.length < n := by
        rw [← hn, List.length_append]
        omega
      obtain ⟨pieces, hlex, hanswer⟩ := ih _ hless (done ++ [⟨found.1, piece⟩]) after h rfl
      rw [List.append_assoc] at hanswer
      exact ⟨_, .cons hform hlex, hanswer⟩

/-- **A reading of the file is answered**. -/
theorem blankLoop_complete {dialect : BraceDialect}
    (hfirst : ∀ q ∈ dialect.quotes, q.first ≠ backslash) {text : Units}
    {pieces : List (Piece UInt16 Kind)} (h : Lexes dialect text pieces)
    (hs : ∀ piece ∈ pieces, Said piece) (done : List (Piece UInt16 Kind)) :
    blankLoop dialect (textOf done ++ text) (textOf done).length (masked done ++ text)
      (literals done) = some (masked (done ++ pieces), literals (done ++ pieces)) := by
  induction h generalizing done with
  | nil => rw [blankLoop_end, List.append_nil]
  | @cons kind piece after pieces hf _ ih =>
    obtain ⟨more, hread, hlen⟩ := reading_complete hfirst hf (hs _ List.mem_cons_self)
    rw [blankLoop_step hlen hread, ih (fun p hp => hs p (List.mem_cons_of_mem _ hp)),
      List.append_assoc]
    rfl

theorem BraceLanguage.quotes_first (language : BraceLanguage) :
    ∀ q ∈ language.dialect.quotes, q.first ≠ backslash := by
  cases language <;> decide

end AgenticGit.CodeIntelligence.Masking
