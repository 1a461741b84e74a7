import Mathlib.Data.List.Infix
import AgenticGit.Coordinator.Hunks

/- Reading an objective for what it is about: `intentTerms` of `intent-analysis`,
   `identifierTokens` of `code-intelligence`, and `likelySymbolsIn` of
   `scope-estimation.ts`.

   Correspondence (TypeScript ↔ Lean):
     `lemmatize.noun`, `.verb`, `.adjective`     ↔ `Lemmatizer`: they follow WordNet
     `/[a-z][a-z0-9]*(?:[-_][a-z0-9]+)*/gu`      ↔ `intentWords`
     `/[A-Z]+(?![a-z])|[A-Z]?[a-z]+|[0-9]+/gu`   ↔ `identifierLoop`, by what is being read
     `/[class][class]*/gu`, a split on the rest  ↔ `runs`
     `Math.round(n * 0.05)`                      ↔ `(n + 10) / 20` -/
namespace AgenticGit.Coordinator
open AgenticGit.Runtime AgenticGit.Shared

/-- The lemmatizer: the shortest form of a word for each part of speech. -/
class Lemmatizer where
  noun : String → String
  verb : String → String
  adjective : String → String

/-- Words that are their own lemmas. -/
@[reducible] def plainLemmatizer : Lemmatizer where
  noun word := word
  verb word := word
  adjective word := word

/-! ## Characters -/

def isLower (c : Char) : Bool := 'a' ≤ c && c ≤ 'z'

def isUpper (c : Char) : Bool := 'A' ≤ c && c ≤ 'Z'

def isDigit (c : Char) : Bool := '0' ≤ c && c ≤ '9'

/-- `s.length`, in UTF-16 code units. -/
def unitCount (s : String) : Nat := (codeUnits s).length

/-- The matches of `/[head][tail]*/gu`; every `head` is a `tail`. What is being read
comes first, last character first. -/
def runs (head tail : Char → Bool) : Option (List Char) → List Char → List String
  | none, [] => []
  | some read, [] => [String.ofList read.reverse]
  | none, c :: rest => runs head tail (if head c then some [c] else none) rest
  | some read, c :: rest =>
    if tail c then runs head tail (some (c :: read)) rest
    else String.ofList read.reverse :: runs head tail none rest

/-! ## Intent terms -/

/-- Words carrying no information about what a task changes. -/
def INTENT_STOP_WORDS : List String :=
  ["a", "an", "and", "any", "are", "as", "at", "be", "been", "but", "by", "do", "does",
   "each", "either", "every", "for", "from", "has", "have", "in", "into", "is", "it", "its",
   "not", "of", "on", "only", "or", "other", "over", "per", "so", "than", "that", "the",
   "their", "them", "there", "these", "they", "this", "those", "to", "up", "was", "were",
   "what", "when", "where", "which", "while", "who", "will", "with", "within", "without",
   "add", "additional", "adjust", "allow", "apply", "behavior", "behaviour", "capture",
   "change", "coverage", "current", "currently", "ensure", "enable", "existing", "expand",
   "implement", "include", "introduce", "keep", "leave", "maintain", "make", "modify", "new",
   "preserve", "provide", "record", "regression", "remain", "retain", "return", "set",
   "support", "test", "tests", "update", "use", "value"]

/-- Terms too generic to corroborate anything even after lemmatization. -/
def WEAK_TERMS : List String :=
  ["case", "data", "default", "detail", "feature", "field", "function", "item", "logic",
   "method", "module", "name", "number", "option", "output", "part", "path", "result", "rule",
   "state", "step", "thing", "time", "type", "way", "work"]

def lemmaOf [TextRuntime] [Lemmatizer] (token : String) : String :=
  let word := toLowerCase token
  let candidates := [Lemmatizer.noun word, Lemmatizer.verb word, Lemmatizer.adjective word].filter
    fun candidate => 0 < unitCount candidate
  candidates.foldl
    (fun best candidate => if unitCount candidate < unitCount best then candidate else best) word

/-- The matches of a word, hyphens and underscores inside it included. -/
def intentWords : Option (List Char) → List Char → List String
  | none, [] => []
  | some read, [] => [String.ofList read.reverse]
  | none, c :: rest => intentWords (if isLower c then some [c] else none) rest
  | some read, c :: rest =>
    let joins := (c = '-' || c = '_') && rest.head?.any fun next => isLower next || isDigit next
    if isLower c || isDigit c || joins then intentWords (some (c :: read)) rest
    else String.ofList read.reverse :: intentWords none rest

/-- A compound and its parts; a word without parts is only itself. -/
def expandCompound (token : String) : List String :=
  let parts := runs (fun c => c ≠ '-' && c ≠ '_') (fun c => c ≠ '-' && c ≠ '_') none token.toList
  if 1 < parts.length then token :: parts else [token]

structure IntentTerms where
  lemmas : List String
  /-- The subset strong enough to corroborate a collision on its own. -/
  strong : List String
  deriving DecidableEq, Repr

def intentTerms [TextRuntime] [Lemmatizer] (text : String) : IntentTerms :=
  let tokens := (intentWords none (toLowerCase text).toList).flatMap expandCompound
  let kept := (tokens.filter fun token => 3 ≤ unitCount token && token ∉ INTENT_STOP_WORDS).map
    lemmaOf
  let lemmas := unique (kept.filter fun term => 3 ≤ unitCount term && term ∉ INTENT_STOP_WORDS)
  ⟨lemmas, lemmas.filter fun term => term ∉ WEAK_TERMS⟩

/-! ## Identifiers -/

/-- What `identifierTokens` is reading, last character first. -/
inductive Fragment where
  | none
  | upper (last : Char) (before : List Char)
  | lower (read : List Char)
  | digits (read : List Char)

def Fragment.start (c : Char) : Fragment :=
  if isUpper c then .upper c [] else if isLower c then .lower [c]
  else if isDigit c then .digits [c] else .none

def Fragment.text : Fragment → List String
  | .none => []
  | .upper last before => [String.ofList (last :: before).reverse]
  | .lower read => [String.ofList read.reverse]
  | .digits read => [String.ofList read.reverse]

def identifierLoop : Fragment → List Char → List String
  | fragment, [] => fragment.text
  | .none, c :: rest => identifierLoop (.start c) rest
  | .upper last before, c :: rest =>
    if isUpper c then identifierLoop (.upper c (last :: before)) rest
    else if isLower c then
      -- the last capital belongs to the word that starts here
      match before with
      | [] => identifierLoop (.lower [c, last]) rest
      | _ :: _ => String.ofList before.reverse :: identifierLoop (.lower [c, last]) rest
    else String.ofList (last :: before).reverse :: identifierLoop (.start c) rest
  | .lower read, c :: rest =>
    if isLower c then identifierLoop (.lower (c :: read)) rest
    else String.ofList read.reverse :: identifierLoop (.start c) rest
  | .digits read, c :: rest =>
    if isDigit c then identifierLoop (.digits (c :: read)) rest
    else String.ofList read.reverse :: identifierLoop (.start c) rest

def identifierTokens [TextRuntime] (name : String) : List String :=
  (identifierLoop .none name.toList).map toLowerCase

/-! ## likelySymbolsIn -/

/-- Prose that says nothing about where inside one file work lands. -/
def SYMBOL_STOP_WORDS : List String :=
  ["a", "about", "above", "across", "after", "again", "all", "already", "also", "always",
   "an", "and", "any", "anything", "are", "around", "as", "at", "back", "be", "because",
   "been", "before", "behind", "being", "below", "best", "better", "between", "both", "but",
   "by", "can", "cannot", "could", "current", "currently", "do", "does", "doing", "done",
   "down", "due", "during", "each", "either", "else", "even", "every", "everything", "first",
   "for", "from", "full", "further", "has", "have", "here", "how", "however", "if", "in",
   "instead", "into", "is", "it", "its", "just", "kind", "known", "last", "let", "like",
   "many", "may", "might", "more", "most", "much", "must", "no", "not", "now", "of", "off",
   "on", "once", "one", "only", "onto", "or", "other", "our", "out", "over", "own", "per",
   "possible", "properly", "same", "side", "similar", "simple", "since", "so", "some",
   "something", "still", "such", "sure", "than", "that", "the", "their", "them", "then",
   "there", "these", "they", "thing", "this", "those", "through", "time", "to", "too", "top",
   "two", "under", "until", "up", "upon", "very", "was", "way", "we", "well", "were", "what",
   "when", "where", "whether", "which", "while", "who", "why", "will", "with", "within",
   "without", "would", "you", "your", "add", "adding", "allow", "api", "app", "apply", "base",
   "break", "call", "case", "change", "changes", "clean", "cleanup", "code", "common",
   "component", "consider", "correct", "drop", "enable", "ensure", "exist", "existing",
   "expect", "fail", "fix", "fixed", "function", "generate", "generating", "get", "give",
   "go", "good", "handle", "help", "helper", "implement", "improve", "include", "init",
   "issue", "keep", "logic", "make", "makes", "method", "module", "need", "needs", "new",
   "note", "part", "pass", "please", "point", "prevent", "problem", "provide", "put",
   "reason", "remove", "replace", "require", "return", "see", "setup", "should", "step",
   "support", "system", "take", "test", "tests", "todo", "try", "use", "used", "using",
   "util", "utils", "want", "work"]

section

variable [TextRuntime] [Lemmatizer]

def symbolTokens (word : String) (minLength : Nat) (stopped : Bool) : List String :=
  ((identifierTokens word).map lemmaOf).filter fun token =>
    minLength ≤ unitCount token && !(token ≠ "" && token.toList.all isDigit) &&
      !(stopped && token ∈ SYMBOL_STOP_WORDS)

structure ScoredName where
  name : String
  matched : Int
  deriving DecidableEq, Repr

/-- How much of one declaration's name an objective accounts for. -/
def scoreName (lowered : String) (words : List String) (placed : List NamedRange)
    (minTokenLength : Nat) (entry : NamedRange) : Option ScoredName :=
  let tokensOf := fun name => unique (symbolTokens name minTokenLength false)
  let frequency := fun token =>
    (placed.filter fun other => token ∈ tokensOf other.name).length
  let ceiling := max 3 ((placed.length + 10) / 20)
  -- the whole name written out is unambiguous however common its parts are
  if (toLowerCase entry.name).toList <:+: lowered.toList then some ⟨entry.name, maxSafeInteger⟩
  else
    let matched := ((tokensOf entry.name).filter fun token =>
      token ∈ words && 0 < frequency token && frequency token < placed.length &&
        frequency token ≤ ceiling).length
    if 0 < matched then some ⟨entry.name, matched⟩ else none

/-- Which declarations in one file an objective is likely to be about. -/
def likelySymbolsIn (objective : String) (placed : List NamedRange) : List String :=
  let minTokenLength := 3
  let lowered := toLowerCase objective
  let isWord := fun c => isUpper c || isLower c || isDigit c || c = '_'
  let words := unique ((runs isWord isWord none lowered.toList).flatMap fun word =>
    symbolTokens word minTokenLength true)
  if words.length = 0 || placed.length = 0 then []
  else
    let scored := placed.filterMap (scoreName lowered words placed minTokenLength)
    let best := scored.foldl (fun top entry => max top entry.matched) 0
    sortStrings ((scored.filter fun entry => entry.matched = best).map ScoredName.name)

end

end AgenticGit.Coordinator
