import Mathlib.Data.Finset.Card
import AgenticGit.Coordinator.Narrowing

/- What an assessment amounts to: its score, its disposition and what each kind of evidence
   is worth. That is read off a list of marks, one for each piece of evidence
   (`conclude_verdict`): structural evidence is worth as many names as it has, times a weight
   (`items_marks`), and what the intents are worth comes behind it.

   Correspondence (TypeScript ↔ Lean):
     the list a kind of evidence names ↔ `named`
     what it weighs                    ↔ `ResolvedConflictOptions.weight` -/
namespace AgenticGit.Coordinator
open AgenticGit.Runtime AgenticGit.Shared

/-! ## Marks -/

/-- What a piece of evidence counts for. -/
structure Mark where
  kind : ConflictEvidenceKind
  score : ℚ
  advisory : Bool
  deriving DecidableEq, Repr

def mark (entry : ConflictEvidence) : Mark := ⟨entry.kind, entry.score, entry.advisory⟩

structure Verdict where
  score : ℚ
  disposition : ConflictDisposition
  kinds : Finset (ConflictEvidenceKind × ℚ)
  deriving DecidableEq

def verdict (assessment : ConflictAssessment) : Verdict :=
  ⟨assessment.score, assessment.disposition,
    (assessment.evidence.map fun entry => (entry.kind, entry.score)).toFinset⟩

namespace ConflictDetector

def schedulingScore (marks : List Mark) : ℚ :=
  min 100 (marks.map fun mark => if mark.advisory then 0 else mark.score).sum

def notifies (marks : List Mark) : Bool :=
  (marks.any fun mark => mark.advisory && 0 < mark.score) &&
    !marks.any fun mark => mark.kind = .intentIndependent

def notified (notify : Bool) (disposition : ConflictDisposition) : ConflictDisposition :=
  if notify && disposition = .concurrent then .concurrentWithNotification else disposition

/-- The verdict on marks; none without something substantive. -/
def verdictOf (self : ConflictDetector) (marks : List Mark) : Option Verdict :=
  if marks.any fun mark => mark.kind ≠ .intentIndependent then
    some
      { score := min 100 (marks.map Mark.score).sum
        disposition := notified (notifies marks)
          (dispositionFor (schedulingScore marks) self.options.thresholds)
        kinds := (marks.map fun mark => (mark.kind, mark.score)).toFinset }
  else none

/-- **An assessment amounts to what its marks do.** -/
theorem conclude_verdict [Printer] (self : ConflictDetector) (taskIds : String × String)
    (items : List ConflictEvidence) :
    (self.conclude taskIds items).map verdict = self.verdictOf (items.map mark) := by
  unfold conclude verdictOf
  dsimp only
  by_cases hsome : ∃ entry ∈ items, entry.kind ≠ .intentIndependent
  · obtain ⟨entry, hmem, hkind⟩ := hsome
    have hlist : ¬(items.filter fun entry => entry.kind ≠ .intentIndependent).length = 0 := by
      intro hlength
      have hentry : entry ∈ items.filter fun entry => entry.kind ≠ .intentIndependent :=
        List.mem_filter.mpr ⟨hmem, decide_eq_true hkind⟩
      rw [List.eq_nil_of_length_eq_zero hlength] at hentry
      cases hentry
    have hany : ((items.map mark).any fun mark => mark.kind ≠ .intentIndependent) = true :=
      List.any_eq_true.mpr ⟨mark entry, List.mem_map.mpr ⟨entry, hmem, rfl⟩, decide_eq_true hkind⟩
    rw [if_neg hlist, if_pos hany]
    simp only [Option.map_some, verdict, schedulingScore, notifies, notified, List.map_map,
      List.any_map, Function.comp_def, mark]
    rfl
  · have hlist : (items.filter fun entry => entry.kind ≠ .intentIndependent).length = 0 := by
      rw [List.length_eq_zero_iff, List.filter_eq_nil_iff]
      exact fun entry hmem hkind => hsome ⟨entry, hmem, of_decide_eq_true hkind⟩
    have hany : ¬((items.map mark).any fun mark => mark.kind ≠ .intentIndependent) = true := by
      intro hany
      obtain ⟨found, hfound, hkind⟩ := List.any_eq_true.mp hany
      obtain ⟨entry, hmem, rfl⟩ := List.mem_map.mp hfound
      exact hsome ⟨entry, hmem, of_decide_eq_true hkind⟩
    rw [if_pos hlist, if_neg hany]
    rfl

end ConflictDetector

/-! ## Structural evidence -/

def structuralKinds : List ConflictEvidenceKind :=
  [.fileOverlap, .symbolOverlap, .dependencyImpact, .apiOverlap, .schemaOverlap,
    .configurationOverlap, .testOverlap]

def ResolvedConflictOptions.weight (options : ResolvedConflictOptions) :
    ConflictEvidenceKind → ℚ
  | .fileOverlap => options.fileOverlapWeight
  | .symbolOverlap => options.symbolOverlapWeight
  | .dependencyImpact => options.dependencyImpactWeight
  | .apiOverlap => options.apiOverlapWeight
  | .schemaOverlap => options.schemaOverlapWeight
  | .configurationOverlap => options.configurationOverlapWeight
  | .testOverlap => options.testOverlapWeight
  | .intentConflict => options.semanticConflictWeight
  | .intentIndependent => 0

theorem ConflictDetector.weight_nonneg (self : ConflictDetector) {kind : ConflictEvidenceKind}
    (h : kind ∈ structuralKinds) : 0 ≤ self.options.weight kind := by
  have hweights := self.valid.1
  simp only [List.forall_mem_cons] at hweights
  obtain ⟨hfile, hsymbol, hdependency, hapi, hschema, hconfiguration, htest, -⟩ := hweights
  simp only [structuralKinds, List.mem_cons, List.not_mem_nil, or_false] at h
  rcases h with rfl | rfl | rfl | rfl | rfl | rfl | rfl <;> assumption

section
variable [TextRuntime]

/-- The list of a plan that a kind of evidence compares. -/
def claimed (plan : AgentPlan) : ConflictEvidenceKind → List String
  | .symbolOverlap => arbitrationSymbols plan
  | .apiOverlap => ownApis plan
  | .schemaOverlap => ownSchemas plan
  | .configurationOverlap => ownConfigKeys plan
  | .testOverlap => ownTests plan
  | _ => []

/-- What a kind of evidence names, given the files two plans collide on. -/
def named (left right : AgentPlan) (files : List String) : ConflictEvidenceKind → List String
  | .fileOverlap => files
  | .dependencyImpact => dependencyImpact left right
  | kind => overlap (claimed left kind) (claimed right kind)

namespace ConflictDetector

def worth (self : ConflictDetector) (left right : AgentPlan) (files : List String)
    (kind : ConflictEvidenceKind) : ℚ :=
  (named left right files kind).length * self.options.weight kind

/-- The mark of a kind of evidence; none when it is worth nothing. -/
def structuralMark (self : ConflictDetector) (left right : AgentPlan) (files : List String)
    (kind : ConflictEvidenceKind) : Option Mark :=
  if 0 < self.worth left right files kind then
    some ⟨kind, self.worth left right files kind, false⟩
  else none

def intentItems (self : ConflictDetector) (taskIds : String × String)
    (intent : Option IntentResult) : List ConflictEvidence :=
  let independent := intent.any IntentResult.independent
  [if independent then none
    else evidence .intentConflict ((intent.map IntentResult.resources).getD []) taskIds
      ⌊(intent.map IntentResult.probability).getD 0 * self.options.semanticConflictWeight + 1 / 2⌋
      true (intent.map IntentResult.explanation),
    if independent then
      intent.bind fun result =>
        if 0 < result.resources.length then
          some { kind := .intentIndependent, resources := result.resources, taskIds, score := 0,
                 advisory := true, explanation := some result.explanation }
        else none
    else none].filterMap id

def note (left right : AgentPlan) (files : List String) : ConflictEvidenceKind → Option String
  | .fileOverlap => groundedNote (overlap left.expectedFiles right.expectedFiles) files
  | .symbolOverlap => groundedNote (overlap left.expectedSymbols right.expectedSymbols)
      (overlap (arbitrationSymbols left) (arbitrationSymbols right))
  | _ => none

def structuralItem (self : ConflictDetector) (left right : AgentPlan) (files : List String)
    (kind : ConflictEvidenceKind) : Option ConflictEvidence :=
  evidence kind (named left right files kind) (left.taskId, right.taskId)
    (self.worth left right files kind) false (note left right files kind)

/-- **The evidence is one piece for each kind**, and what was made of the intents. -/
theorem items_eq (self : ConflictDetector) (left right : AgentPlan) (files : List String)
    (intent : Option IntentResult) :
    self.items left right files intent =
      structuralKinds.filterMap (self.structuralItem left right files) ++
        self.intentItems (left.taskId, right.taskId) intent := by
  have hkinds : structuralKinds.filterMap (self.structuralItem left right files) =
      (structuralKinds.map (self.structuralItem left right files)).filterMap id := by
    rw [List.filterMap_map, Function.id_comp]
  rw [hkinds, intentItems, ← List.filterMap_append]
  rfl

theorem mark_structuralItem (self : ConflictDetector) (left right : AgentPlan)
    (files : List String) {kind : ConflictEvidenceKind} (h : kind ∈ structuralKinds) :
    (self.structuralItem left right files kind).map mark =
      self.structuralMark left right files kind := by
  have hweight := self.weight_nonneg h
  unfold structuralItem structuralMark evidence
  by_cases hpos : 0 < self.worth left right files kind
  · have hlength : ¬(named left right files kind).length = 0 := by
      intro hlength
      rw [worth, hlength, Nat.cast_zero, zero_mul] at hpos
      exact lt_irrefl _ hpos
    rw [if_pos hpos, if_neg (not_or.mpr ⟨hlength, not_le.mpr hpos⟩)]
    rfl
  · rw [if_neg hpos, if_pos (Or.inr (not_lt.mp hpos))]
    rfl

/-- The marks of a pair, given the files it collides on and what was made of its intents. -/
def marks (self : ConflictDetector) (left right : AgentPlan) (files : List String)
    (intent : Option IntentResult) : List Mark :=
  structuralKinds.filterMap (self.structuralMark left right files) ++
    (self.intentItems (left.taskId, right.taskId) intent).map mark

theorem items_marks (self : ConflictDetector) (left right : AgentPlan) (files : List String)
    (intent : Option IntentResult) :
    (self.items left right files intent).map mark = self.marks left right files intent := by
  rw [items_eq, marks, List.map_append, List.map_filterMap]
  refine congrArg (· ++ _) (List.filterMap_congr fun kind hkind => ?_)
  exact self.mark_structuralItem left right files hkind

def intentOf (first second : AgentPlan) (intentAssessment : Option IntentConflictAssessment) :
    Option IntentResult :=
  match intentAssessment with
  | none => analyzeIntent (completed first) (completed second)
  | some assess => assess (completed first) (completed second)

end ConflictDetector

/-- What came of an assessment; nothing where it threw. -/
def outcome (assessed : Except PathError (Option ConflictAssessment)) :
    Option (Option Verdict) :=
  assessed.toOption.map (Option.map verdict)

/-- **What comes of an assessment is what its marks amount to.** -/
theorem ConflictDetector.outcome_assess [Printer] (self : ConflictDetector)
    (first second : AgentPlan) (occupancy : Option FileOccupancy)
    (intentAssessment : Option IntentConflictAssessment) :
    outcome (self.assess first second occupancy intentAssessment) =
      (overlappingFiles (completed first) (completed second) occupancy).toOption.map
        fun files => self.verdictOf (self.marks (completed first) (completed second) files
          (intentOf first second intentAssessment)) := by
  unfold ConflictDetector.assess
  dsimp only
  cases overlappingFiles (completed first) (completed second) occupancy with
  | error e => rfl
  | ok files =>
    show some (Option.map verdict _) = some _
    rw [self.conclude_verdict, items_marks]
    rfl

end

end AgenticGit.Coordinator
