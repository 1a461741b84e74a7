import Mathlib.Data.Rat.Floor
import AgenticGit.Coordinator.Objectives

/- Scoring two plans against each other: `conflict-detector.ts`.

   What is proved: two plans without structural evidence collide on no file
   (`assess_fileOverlap`), and on a file they do not collide on, both sides occupy
   known lines that do not meet (`overlappingFiles_apart`).

   Correspondence (TypeScript ↔ Lean):
     weights and scores, `number`s   ↔ rationals
     `Math.round(x)`                 ↔ `⌊x + 1 / 2⌋`
     a `FileOccupancy` that throws   ↔ `Except PathError`
     the constructor's checks        ↔ `ResolvedConflictOptions.Valid`, a field of
       `ConflictDetector` -/
namespace AgenticGit.Coordinator
open AgenticGit.Runtime AgenticGit.Shared

/-! ## Options -/

structure ConflictThresholds where
  concurrentMaximum : ℚ
  notifyMaximum : ℚ
  sequenceMaximum : ℚ
  deriving DecidableEq, Repr

structure ResolvedConflictOptions where
  fileOverlapWeight : ℚ
  symbolOverlapWeight : ℚ
  dependencyImpactWeight : ℚ
  apiOverlapWeight : ℚ
  schemaOverlapWeight : ℚ
  configurationOverlapWeight : ℚ
  testOverlapWeight : ℚ
  semanticConflictWeight : ℚ
  thresholds : ConflictThresholds
  deriving DecidableEq, Repr

def DEFAULT_CONFLICT_OPTIONS : ResolvedConflictOptions where
  fileOverlapWeight := 20
  symbolOverlapWeight := 35
  dependencyImpactWeight := 25
  apiOverlapWeight := 30
  schemaOverlapWeight := 40
  configurationOverlapWeight := 15
  testOverlapWeight := 10
  semanticConflictWeight := 30
  thresholds := ⟨20, 45, 70⟩

/-- What the constructor of `ConflictDetector` checks. -/
def ResolvedConflictOptions.Valid (options : ResolvedConflictOptions) : Prop :=
  (∀ weight ∈ [options.fileOverlapWeight, options.symbolOverlapWeight,
    options.dependencyImpactWeight, options.apiOverlapWeight, options.schemaOverlapWeight,
    options.configurationOverlapWeight, options.testOverlapWeight,
    options.semanticConflictWeight], 0 ≤ weight) ∧
  0 ≤ options.thresholds.concurrentMaximum ∧
  options.thresholds.concurrentMaximum ≤ options.thresholds.notifyMaximum ∧
  options.thresholds.notifyMaximum ≤ options.thresholds.sequenceMaximum

instance (options : ResolvedConflictOptions) : Decidable options.Valid :=
  inferInstanceAs (Decidable (_ ∧ _ ∧ _ ∧ _))

structure ConflictDetector where
  options : ResolvedConflictOptions
  valid : options.Valid

/-- `new ConflictDetector()`. -/
def ConflictDetector.default : ConflictDetector := ⟨DEFAULT_CONFLICT_OPTIONS, by decide⟩

def dispositionFor (score : ℚ) (thresholds : ConflictThresholds) : ConflictDisposition :=
  if score ≤ thresholds.concurrentMaximum then .concurrent
  else if score ≤ thresholds.notifyMaximum then .concurrentWithNotification
  else if score ≤ thresholds.sequenceMaximum then .sequence
  else .block

/-! ## Intent -/

def OPPOSING_ACTIONS : List (String × String) :=
  [("add", "remove"), ("allow", "deny"), ("create", "delete"), ("enable", "disable"),
   ("expand", "restrict"), ("introduce", "eliminate"), ("migrate", "rollback"),
   ("publish", "hide"), ("require", "optional"), ("start", "stop")]

def STOP_WORDS : List String :=
  ["a", "an", "and", "for", "from", "in", "of", "on", "or", "the", "to", "with"]

/-- A verdict on whether two plans' stated intents are after the same code. -/
structure IntentResult where
  probability : ℚ
  resources : List String
  explanation : String
  /-- The verdict is that the two plans are unrelated. -/
  independent : Bool := false
  deriving DecidableEq, Repr

abbrev IntentConflictAssessment := AgentPlan → AgentPlan → Option IntentResult

section

variable [TextRuntime]

def words (value : String) : List String :=
  let head := fun c => isLower c || isDigit c
  unique ((runs head (fun c => head c || c = '_' || c = '-') none (toLowerCase value).toList).filter
    fun word => word ∉ STOP_WORDS)

def statedIntent (plan : AgentPlan) : String := plan.intent.getD plan.objective

/-- Whether two plans are even about the same thing, judged from their stated
intent alone. -/
def relatedObjectives [Lemmatizer] (first second : AgentPlan) : Bool :=
  let left := (intentTerms (statedIntent first)).strong
  let right := (intentTerms (statedIntent second)).strong
  left.any fun term => term ∈ right

def analyzeIntent (first second : AgentPlan) : Option IntentResult :=
  let left := words (statedIntent first)
  let right := words (statedIntent second)
  let targets := sortStrings ((left.filter fun word => word ∈ right).filter fun word =>
    !OPPOSING_ACTIONS.any fun action => word = action.1 || word = action.2)
  if targets.length = 0 then none
  else
    let opposed := OPPOSING_ACTIONS.find? fun action =>
      (action.1 ∈ left && action.2 ∈ right) || (action.2 ∈ left && action.1 ∈ right)
    opposed.map fun action =>
      { probability := 9 / 10
        resources := targets
        explanation := "Objectives use opposing actions (" ++ action.1 ++ "/" ++ action.2 ++
          ") for shared intent terms: " ++ ", ".intercalate targets }

/-! ## Overlap -/

/-- The values of the first list the second one names too, in whatever case. -/
def overlap (first second : List String) : List String :=
  let right := second.map toLowerCase
  uniqueStrings (first.filter fun value => toLowerCase value ∈ right)

/-- What a plan occupies inside one file; `none` when it occupies all of it. -/
abbrev FileOccupancy := AgentPlan → String → Except PathError (Option (List LineRange))

/-- Whether two claims on one file touch; an absent one is the whole file. -/
def meet : Option (List LineRange) → Option (List LineRange) → Bool
  | some left, some right => rangesIntersect left right
  | _, _ => true

def meetingFiles (occupancy : FileOccupancy) (first second : AgentPlan) :
    List String → Except PathError (List String)
  | [] => .ok []
  | file :: files => do
    let left ← occupancy first file
    let right ← occupancy second file
    let rest ← meetingFiles occupancy first second files
    return if meet left right then file :: rest else rest

/-- Files two plans collide on, judged on each plan's grounded footprint. -/
def overlappingFiles (first second : AgentPlan) (occupancy : Option FileOccupancy) :
    Except PathError (List String) := do
  let left ← arbitrationFiles first
  let right ← arbitrationFiles second
  let shared := overlap left right
  match occupancy with
  | none => return shared
  | some occupancy => meetingFiles occupancy first second shared

/-- One of a plan's resource lists as the agent declared it. -/
def asDeclared (plan : AgentPlan) (key : PlanDeclarations → Option (List String))
    (enriched : Option (List String)) : List String :=
  match plan.declared with
  | none => enriched.getD []
  | some declared => (key declared).getD []

def ownApis (plan : AgentPlan) : List String :=
  asDeclared plan PlanDeclarations.apis plan.expectedApis

def ownSchemas (plan : AgentPlan) : List String :=
  asDeclared plan PlanDeclarations.schemas plan.expectedSchemas

def ownServices (plan : AgentPlan) : List String :=
  asDeclared plan PlanDeclarations.services plan.expectedServices

def ownDependencies (plan : AgentPlan) : List String :=
  asDeclared plan PlanDeclarations.dependencies (some plan.dependencies)

def ownConfigKeys (plan : AgentPlan) : List String :=
  asDeclared plan PlanDeclarations.configKeys plan.expectedConfigKeys

def ownTests (plan : AgentPlan) : List String :=
  asDeclared plan PlanDeclarations.tests plan.expectedTests

/-- What a plan offers, for deciding whether another plan depends on it. -/
def resourceNames (plan : AgentPlan) : List String :=
  let named := fun (kind : String) (values : List String) =>
    values.flatMap fun value => [value, kind ++ ":" ++ value]
  (named "file" plan.expectedFiles ++
    named "symbol" (asDeclared plan PlanDeclarations.symbols (some plan.expectedSymbols)) ++
    named "api" (ownApis plan) ++ named "schema" (ownSchemas plan) ++
    named "service" (ownServices plan)).map toLowerCase

def dependencyImpact (left right : AgentPlan) : List String :=
  let offered := fun (consumer producer : AgentPlan) =>
    (ownDependencies consumer).filter fun value =>
      toLowerCase value ∈ resourceNames producer
  uniqueStrings (offered left right ++ offered right left ++
    (overlap (ownServices left) (ownServices right)).map fun value =>
      "service:" ++ value)

end

/-! ## assess -/

def evidence (kind : ConflictEvidenceKind) (resources : List String) (taskIds : String × String)
    (score : ℚ) (advisory : Bool) (explanation : Option String) : Option ConflictEvidence :=
  if resources.length = 0 ∨ score ≤ 0 then none
  else some { kind, resources, taskIds, score, advisory, explanation }

/-- Overlap found only through grounding is called out in the evidence. -/
def groundedNote [TextRuntime] (declared found : List String) : Option String :=
  let owned := declared.map toLowerCase
  if found.any fun entry => toLowerCase entry ∉ owned then
    some "includes resources plan verification grounded unverifiable declarations to"
  else none

/-- Only structural evidence controls scheduling. -/
def structuralConflict (assessment : ConflictAssessment) : Bool :=
  assessment.evidence.any fun entry => !entry.advisory && 0 < entry.score

def completed (plan : AgentPlan) : AgentPlan :=
  let complete := completeAgentPlan plan
  { plan with
    expectedApis := some complete.expectedApis
    expectedSchemas := some complete.expectedSchemas
    expectedConfigKeys := some complete.expectedConfigKeys
    expectedTests := some complete.expectedTests
    expectedServices := some complete.expectedServices
    intent := some complete.intent }

namespace ConflictDetector

section

variable [TextRuntime]

/-- The evidence of a pair, given the files it collides on and what was made of its
intents. -/
def items (self : ConflictDetector) (left right : AgentPlan) (fileOverlap : List String)
    (intent : Option IntentResult) : List ConflictEvidence :=
  let options := self.options
  let taskIds := (left.taskId, right.taskId)
  let symbolOverlap := overlap (arbitrationSymbols left) (arbitrationSymbols right)
  let scored := fun kind (resources : List String) (weight : ℚ) explanation =>
    evidence kind resources taskIds (resources.length * weight) false explanation
  let independent := intent.any IntentResult.independent
  [scored .fileOverlap fileOverlap options.fileOverlapWeight
      (groundedNote (overlap left.expectedFiles right.expectedFiles) fileOverlap),
    scored .symbolOverlap symbolOverlap options.symbolOverlapWeight
      (groundedNote (overlap left.expectedSymbols right.expectedSymbols) symbolOverlap),
    scored .dependencyImpact (dependencyImpact left right) options.dependencyImpactWeight none,
    scored .apiOverlap (overlap (ownApis left) (ownApis right)) options.apiOverlapWeight none,
    scored .schemaOverlap (overlap (ownSchemas left) (ownSchemas right))
      options.schemaOverlapWeight none,
    scored .configurationOverlap (overlap (ownConfigKeys left) (ownConfigKeys right))
      options.configurationOverlapWeight none,
    scored .testOverlap (overlap (ownTests left) (ownTests right)) options.testOverlapWeight none,
    if independent then none
    else evidence .intentConflict ((intent.map IntentResult.resources).getD []) taskIds
      ⌊(intent.map IntentResult.probability).getD 0 * options.semanticConflictWeight + 1 / 2⌋
      true (intent.map IntentResult.explanation),
    -- a finding of independence weighs nothing
    if independent then
      intent.bind fun result =>
        if 0 < result.resources.length then
          some { kind := .intentIndependent, resources := result.resources, taskIds, score := 0,
                 advisory := true, explanation := some result.explanation }
        else none
    else none].filterMap id

/-- What the evidence of a pair amounts to; nothing without something substantive. -/
def conclude [Printer] (self : ConflictDetector) (taskIds : String × String)
    (items : List ConflictEvidence) : Option ConflictAssessment :=
  let substantive := items.filter fun entry => entry.kind ≠ .intentIndependent
  if substantive.length = 0 then none
  else
    let score := min 100 (items.map ConflictEvidence.score).sum
    let schedulingScore := min 100 (items.map fun entry =>
      if entry.advisory then 0 else entry.score).sum
    let structural := items.any fun entry => !entry.advisory
    let advisory := items.any fun entry => entry.advisory && 0 < entry.score
    let independent := items.any fun entry => entry.kind = .intentIndependent
    let disposition := dispositionFor schedulingScore self.options.thresholds
    let explanation := "; ".intercalate (items.map fun entry =>
      entry.kind.name ++ ": " ++ ", ".intercalate entry.resources ++
        " (+" ++ numberText entry.score ++ ")")
    some
      { taskIds, score
        -- advisory evidence can ask a human to look, and nothing more
        disposition :=
          if advisory && !independent && disposition = .concurrent then .concurrentWithNotification
          else disposition
        evidence := items
        explanation := explanation ++ ". " ++
          (if structural then
            "Structural evidence controls scheduling (" ++ numberText schedulingScore ++ " of " ++
              numberText score ++ ")."
          else "Intent-only evidence is advisory and never blocks automatically.") }

def assess [Printer] (self : ConflictDetector) (first second : AgentPlan)
    (occupancy : Option FileOccupancy) (intentAssessment : Option IntentConflictAssessment) :
    Except PathError (Option ConflictAssessment) := do
  let left := completed first
  let right := completed second
  let intent :=
    match intentAssessment with
    | none => analyzeIntent left right
    | some assess => assess left right
  let fileOverlap ← overlappingFiles left right occupancy
  return self.conclude (first.taskId, second.taskId) (self.items left right fileOverlap intent)

end

end ConflictDetector

/-! ## What an assessment without structural evidence says -/

theorem evidence_eq_some (kind : ConflictEvidenceKind) (taskIds : String × String)
    (advisory : Bool) (explanation : Option String) {resources : List String} {score : ℚ}
    (hr : resources ≠ []) (hs : 0 < score) :
    evidence kind resources taskIds score advisory explanation =
      some { kind, resources, taskIds, score, advisory, explanation } := by
  unfold evidence
  rw [if_neg]
  rintro (hl | hl)
  · exact hr (List.eq_nil_of_length_eq_zero hl)
  · exact absurd hl (not_le.mpr hs)

namespace ConflictDetector

theorem items_fileOverlap [TextRuntime] (self : ConflictDetector) (left right : AgentPlan)
    {files : List String} (intent : Option IntentResult)
    (hw : 0 < self.options.fileOverlapWeight) (hf : files ≠ []) :
    ∃ entry ∈ self.items left right files intent,
      entry.kind = .fileOverlap ∧ entry.advisory = false ∧ 0 < entry.score := by
  have hpos : (0 : ℚ) < (files.length : ℚ) * self.options.fileOverlapWeight :=
    mul_pos (Nat.cast_pos.mpr (List.length_pos_of_ne_nil hf)) hw
  have hsome := evidence_eq_some .fileOverlap (left.taskId, right.taskId) false
    (groundedNote (overlap left.expectedFiles right.expectedFiles) files) hf hpos
  exact ⟨_, List.mem_filterMap.mpr ⟨_, List.mem_cons_self, hsome⟩, rfl, rfl, hpos⟩

section

variable [Printer]

variable {items : List ConflictEvidence}

theorem conclude_evidence {self : ConflictDetector} {taskIds : String × String}
    {assessment : ConflictAssessment} (h : self.conclude taskIds items = some assessment) :
    assessment.evidence = items := by
  unfold conclude at h
  dsimp only at h
  split at h
  · cases h
  · exact (Option.some.inj h) ▸ rfl

theorem conclude_isSome (self : ConflictDetector) (taskIds : String × String)
    {entry : ConflictEvidence} (hm : entry ∈ items) (hk : entry.kind ≠ .intentIndependent) :
    ∃ assessment, self.conclude taskIds items = some assessment := by
  unfold conclude
  dsimp only
  rw [if_neg]
  · exact ⟨_, rfl⟩
  · intro hlen
    have hmem : entry ∈ items.filter fun entry => entry.kind ≠ .intentIndependent :=
      List.mem_filter.mpr ⟨hm, by simpa using hk⟩
    rw [List.eq_nil_of_length_eq_zero hlen] at hmem
    cases hmem

end

end ConflictDetector

/-- The assessment is not there, or has no structural evidence. -/
def Clear (assessment : Option ConflictAssessment) : Prop :=
  ∀ found, assessment = some found → structuralConflict found = false

theorem meetingFiles_nil {occupancy : FileOccupancy} {first second : AgentPlan}
    {files : List String} (h : meetingFiles occupancy first second files = .ok []) {file : String}
    (hf : file ∈ files) :
    ∃ left right, occupancy first file = .ok (some left) ∧ occupancy second file = .ok (some right) ∧
      rangesIntersect left right = false := by
  induction files with
  | nil => cases hf
  | cons other files ih =>
    unfold meetingFiles at h
    cases hl : occupancy first other with
    | error e => rw [hl] at h; cases h
    | ok left =>
      cases hr : occupancy second other with
      | error e => rw [hl, hr] at h; cases h
      | ok right =>
        cases hrest : meetingFiles occupancy first second files with
        | error e => rw [hl, hr, hrest] at h; cases h
        | ok rest =>
          rw [hl, hr, hrest] at h
          have h := Except.ok.inj h
          split at h
          · cases h
          · rename_i hm
            rcases List.mem_cons.mp hf with rfl | hf
            · cases left with
              | none => exact absurd rfl hm
              | some left =>
                cases right with
                | none => exact absurd rfl hm
                | some right => exact ⟨left, right, hl, hr, by simpa [meet] using hm⟩
            · exact ih (h ▸ hrest) hf

section

variable [TextRuntime]

variable {first second : AgentPlan}

/-- **Without structural evidence, two plans collide on no file.** -/
theorem ConflictDetector.assess_fileOverlap [Printer] {self : ConflictDetector}
    {occupancy : Option FileOccupancy} {intentAssessment : Option IntentConflictAssessment}
    {assessment : Option ConflictAssessment} (hw : 0 < self.options.fileOverlapWeight)
    (h : self.assess first second occupancy intentAssessment = .ok assessment)
    (hc : Clear assessment) :
    overlappingFiles (completed first) (completed second) occupancy = .ok [] := by
  unfold ConflictDetector.assess at h
  dsimp only at h
  cases ho : overlappingFiles (completed first) (completed second) occupancy with
  | error e =>
    rw [ho] at h
    cases h
  | ok files =>
    rw [ho] at h
    have h := Except.ok.inj h
    cases files with
    | nil => rfl
    | cons file files =>
      exfalso
      obtain ⟨entry, hm, hk, ha, hs⟩ := self.items_fileOverlap (completed first)
        (completed second) _ hw (List.cons_ne_nil file files)
      obtain ⟨found, hf⟩ := self.conclude_isSome (first.taskId, second.taskId) hm
        (by rw [hk]; decide)
      have hstructural : structuralConflict found = true := by
        unfold structuralConflict
        rw [ConflictDetector.conclude_evidence hf]
        exact List.any_eq_true.mpr ⟨entry, hm, by simp [ha, hs]⟩
      rw [hc found (h ▸ hf)] at hstructural
      cases hstructural

theorem mem_overlap {first second : List String} {value : String} :
    value ∈ overlap first second ↔
      ∃ raw ∈ first, toLowerCase raw ∈ second.map toLowerCase ∧ trim raw = value ∧ value ≠ "" := by
  unfold overlap uniqueStrings
  simp only [mem_sortStrings, mem_unique, List.mem_filter, List.mem_map, decide_eq_true_eq]
  constructor
  · rintro ⟨⟨raw, ⟨hr, hs⟩, rfl⟩, hne⟩
    exact ⟨raw, hr, hs, rfl, hne⟩
  · rintro ⟨raw, hr, hs, rfl, hne⟩
    exact ⟨⟨raw, ⟨hr, hs⟩, rfl⟩, hne⟩

/-- **Where two plans collide on no file, a file both name is one in which each
occupies known lines and the two share none.** A name is compared without regard
to case, and without the space around it. -/
theorem overlappingFiles_apart {occupancy : FileOccupancy} {left right : List String}
    (hl : arbitrationFiles first = .ok left) (hr : arbitrationFiles second = .ok right)
    (h : overlappingFiles first second (some occupancy) = .ok []) {file : String} (hf : file ∈ left)
    (hs : toLowerCase file ∈ right.map toLowerCase) (hne : trim file ≠ "") :
    ∃ mine theirs, occupancy first (trim file) = .ok (some mine) ∧
      occupancy second (trim file) = .ok (some theirs) ∧ rangesIntersect mine theirs = false := by
  unfold overlappingFiles at h
  rw [hl, hr] at h
  exact meetingFiles_nil h (mem_overlap.mpr ⟨file, hf, hs, rfl, hne⟩)

end

end AgenticGit.Coordinator
