import Mathlib.Data.Rat.Defs
import AgenticGit.Lib.Runtime

/- What an assessment of two plans says (`shared-types`).

   Correspondence (TypeScript ↔ Lean):
     a score, a `number`           ↔ a rational
     `advisory?: true`             ↔ `advisory : Bool`, `false` when absent
     `String(n)`                   ↔ `Printer.numberText n`
     `date.toISOString()`          ↔ `Printer.toISOString`, of the milliseconds -/
namespace AgenticGit.Shared

/-- How numbers and instants are written. -/
class Printer where
  numberText : ℚ → String
  toISOString : Int → String

export Printer (numberText toISOString)

/-- Writes whole numbers, and instants as their milliseconds. -/
@[reducible] def wholePrinter : Printer where
  numberText n := toString n.num
  toISOString n := toString n

inductive ConflictDisposition where
  | concurrent | concurrentWithNotification | sequence | block
  deriving DecidableEq, Repr

inductive ConflictEvidenceKind where
  | fileOverlap | symbolOverlap | dependencyImpact | apiOverlap | schemaOverlap
  | configurationOverlap | testOverlap | intentConflict | intentIndependent
  deriving DecidableEq, Repr

def ConflictEvidenceKind.name : ConflictEvidenceKind → String
  | .fileOverlap => "file_overlap"
  | .symbolOverlap => "symbol_overlap"
  | .dependencyImpact => "dependency_impact"
  | .apiOverlap => "api_overlap"
  | .schemaOverlap => "schema_overlap"
  | .configurationOverlap => "configuration_overlap"
  | .testOverlap => "test_overlap"
  | .intentConflict => "intent_conflict"
  | .intentIndependent => "intent_independent"

structure ConflictEvidence where
  kind : ConflictEvidenceKind
  resources : List String
  taskIds : String × String
  score : ℚ
  /-- Intent evidence is advisory and cannot independently block execution. -/
  advisory : Bool := false
  explanation : Option String := none
  deriving DecidableEq, Repr

structure ConflictAssessment where
  taskIds : String × String
  score : ℚ
  disposition : ConflictDisposition
  evidence : List ConflictEvidence
  explanation : String
  deriving DecidableEq, Repr

end AgenticGit.Shared
