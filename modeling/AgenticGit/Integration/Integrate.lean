import AgenticGit.Coordinator.Occupancy
import AgenticGit.Coordinator.Collection
import AgenticGit.Integration.Salvage
import AgenticGit.Integration.Worktree

/- Integrating a changeset (`integration-service/src/index.ts`).

   Correspondence (TypeScript ↔ Lean):
     `git.run`, `runInWorkspace`         ↔ the steps of `Worktree`, one `await` each
     `this.baselines`                    ↔ `Options.baselines`, what is remembered
     `isGraderPath`                      ↔ `Options.isGraderPath`
     the early returns                   ↔ `Except.error`, with the answer

   Times and captured output of a command are left out. -/
namespace AgenticGit.Integration
open AgenticGit.Runtime AgenticGit.Shared AgenticGit.Effects
open AgenticGit.Coordinator (IntegrationStatus sortByLocale)

/-! ## Input and result -/

structure ReproductionTest where
  path : String
  command : ValidationCommand
  deriving DecidableEq, Repr

structure IntegrateChangeSetInput where
  changeSet : ChangeSet
  validationCommands : List ValidationCommand
  affectedTestCommand : Option ValidationCommand
  reproductionTest : Option ReproductionTest
  commitMessage : String
  author : Option String
  trailers : List CommitTrailer
  requireExactBase : Bool
  replayableOnto : Option String
  salvageConflicts : Bool

structure Options (Rev : Type) where
  skipBaseline : Bool
  baselines : Rev → List ValidationCommand → Option (List CommandResult)
  isGraderPath : String → Bool

structure ValidationBaseline where
  cached : Bool
  results : List CommandResult
  nowPassing : List String
  alreadyFailing : List String
  deriving DecidableEq, Repr

inductive ValidationEvidence where
  | none | integrity | executed | demonstrated
  deriving DecidableEq, Repr

structure ReproductionAttestation where
  path : String
  failedBefore : Bool
  passesAfter : Bool
  attested : Bool
  explanation : String
  deriving DecidableEq, Repr

structure GraderEditReport where
  paths : List String
  withoutEdits : Option (List CommandResult)
  passesOnlyWithEdits : Bool
  deriving DecidableEq, Repr

structure IntegrationResult (Rev : Type) where
  taskId : String
  changeSetId : String
  status : IntegrationStatus
  previousVersion : Rev
  canonicalVersion : Rev
  validation : List CommandResult
  candidateRevision : Option Rev := none
  cleanupWarnings : List String := []
  replayedFrom : Option String := none
  salvagedDeferred : Option (List FilePatch) := none
  salvagedDividedFiles : Option (List String) := none
  evidence : Option ValidationEvidence := none
  baseline : Option ValidationBaseline := none
  graderEdits : Option GraderEditReport := none
  reproduction : Option ReproductionAttestation := none
  explanation : String

/-- An answer that leaves canonical at `previousVersion`. -/
def IntegrateChangeSetInput.answer {Rev : Type} (input : IntegrateChangeSetInput)
    (status : IntegrationStatus) (previousVersion : Rev) (validation : List CommandResult)
    (explanation : String) : IntegrationResult Rev :=
  { taskId := input.changeSet.taskId
    changeSetId := input.changeSet.id
    status
    previousVersion
    canonicalVersion := previousVersion
    validation
    explanation }

/-! ## What validation established -/

def validationEvidence (commands : List ValidationCommand) (baseline : Option ValidationBaseline) :
    ValidationEvidence :=
  if commands.length = 0 then .none
  else if commands.all ValidationCommand.provesIntegrity then .integrity
  else
    match baseline with
    | some baseline => if 0 < baseline.nowPassing.length then .demonstrated else .executed
    | none => .executed

def compareBaseline (validation : List CommandResult) (baseline : ValidationBaseline) :
    ValidationBaseline :=
  let failed := baseline.results.filter fun entry => entry.exitCode ≠ 0
  let passesNow := fun (entry : CommandResult) =>
    match validation.find? fun after => after.command.label = entry.command.label with
    | some after => decide (after.exitCode = 0)
    | none => false
  { baseline with
    nowPassing := (failed.filter passesNow).map fun entry => entry.command.label
    alreadyFailing := (failed.filter fun entry => !passesNow entry).map
      fun entry => entry.command.label }

def attestReproduction (test : ReproductionTest) (before after : CommandResult) :
    ReproductionAttestation :=
  let failedBefore := decide (before.exitCode ≠ 0)
  let passesAfter := decide (after.exitCode = 0)
  { path := test.path
    failedBefore
    passesAfter
    attested := failedBefore && passesAfter
    explanation :=
      if failedBefore then
        if passesAfter then "Failed at canonical and passes with this change"
        else "Failed at canonical and still fails with this change"
      else if passesAfter then "Passed at canonical, so it does not demonstrate this change"
      else "Did not pass at canonical or with this change" }

/-- `${label}(exit ${exitCode})`. -/
def validationEntry (entry : CommandResult) : String :=
  s!"{entry.command.label}(exit {entry.exitCode})"

/-- `Salvaged-From-Conflict`. -/
def salvageTrailer (patches : List FilePatch) (salvage : SalvageOutcome) : CommitTrailer :=
  ⟨"Salvaged-From-Conflict",
    s!"{salvage.granted.length} of {patches.length} file(s) applied; conflicted: " ++
      " ".intercalate (salvage.deferred.map FilePatch.path) ++
      (if salvage.divided.length = 0 then ""
        else "; split at the hunk: " ++ " ".intercalate salvage.divided)⟩

def trailersOf (input : IntegrateChangeSetInput) (replaying : Bool)
    (salvage : Option SalvageOutcome) (validation : List CommandResult)
    (evidence : ValidationEvidence) (reproduction : Option ReproductionAttestation)
    (baseline : Option ValidationBaseline) (graderEdits : Option GraderEditReport) :
    List CommitTrailer :=
  [⟨"Task-Id", input.changeSet.taskId⟩, ⟨"Change-Set-Id", input.changeSet.id⟩] ++
    input.trailers ++ [⟨"Base-Revision", input.changeSet.baseRevision⟩] ++
    (if replaying then [⟨"Replayed-From", input.changeSet.baseRevision⟩] else []) ++
    (salvage.map (salvageTrailer input.changeSet.patches)).toList ++
    [⟨"Validation",
      if validation.length = 0 then "none" else ", ".intercalate (validation.map validationEntry)⟩,
    ⟨"Validation-Evidence",
      match evidence with
      | .none => "none"
      | .integrity => "integrity"
      | .executed => "executed"
      | .demonstrated => "demonstrated"⟩] ++
    (reproduction.map fun reproduction =>
      ⟨"Reproduction-Test", s!"{reproduction.path} — {reproduction.explanation}"⟩).toList ++
    (match baseline with
      | some baseline =>
        (if baseline.nowPassing.length = 0 then []
          else [⟨"Now-Passing", ", ".intercalate baseline.nowPassing⟩]) ++
        (if baseline.alreadyFailing.length = 0 then []
          else [⟨"Already-Failing", ", ".intercalate baseline.alreadyFailing⟩])
      | none => []) ++
    (graderEdits.map fun edits =>
      ⟨"Grader-Edits", " ".intercalate edits.paths ++
        (if edits.passesOnlyWithEdits then " (validation passes only with these edits)"
          else "")⟩).toList

/-! ## The steps of an integration -/

section Steps

variable {Rev Tree W : Type} (git : Git Rev Tree W) (env : Environment Rev W)
  (options : Options Rev)

/-- Every command runs, including ones that fail. -/
def runAll : List ValidationCommand → M Rev W (List CommandResult)
  | [] => return []
  | command :: commands => do
    let result ← runValidationCommand env command
    let rest ← runAll commands
    return result :: rest

/-- The same commands at canonical, before the patch goes in. -/
def collectBaseline (revision : Rev) (commands : List ValidationCommand)
    (affected : Option (ValidationCommand × List String)) :
    M Rev W (Option ValidationBaseline) :=
  if options.skipBaseline ∨ commands.length = 0 then return none
  else do
    let commands := match affected with
      | some (command, paths) =>
        if 0 < paths.length then [{ command with args := command.args ++ paths }] else commands
      | none => commands
    match options.baselines revision commands with
    | some results => return some ⟨true, results, [], []⟩
    | none => do
      let results ← runAll env commands
      resetHard git env revision
      return some ⟨false, results, [], []⟩

def reproduceBefore (revision : Rev) (test : Option ReproductionTest) :
    M Rev W (Option CommandResult) :=
  match test with
  | none => return none
  | some test => do
    let before ← runValidationCommand env test.command
    resetHard git env revision
    return some before

def reproduceAfter (test : Option ReproductionTest) (before : Option CommandResult) :
    M Rev W (Option ReproductionAttestation) :=
  match test, before with
  | some test, some before => do
    let after ← runValidationCommand env test.command
    return some (attestReproduction test before after)
  | _, _ => return none

/-- `patches.map((filePatch) => filePatch.patch).join("")`. -/
def combinedPatch (patches : List FilePatch) : String :=
  String.join (patches.map FilePatch.patch)

/-- Applies the changeset, or what can be salvaged of it. -/
def applyChangeSet (input : IntegrateChangeSetInput) (previousVersion : Rev) :
    M Rev W (Except (IntegrationResult Rev) (Option SalvageOutcome)) := do
  let applied ← applyPatch git env (combinedPatch input.changeSet.patches)
  if applied.clean then return .ok none
  else do
    await env
    let s ← get
    let conflictedPaths := git.unmerged s.worktree
    if conflictedPaths.length = 0 then
      return .error (input.answer .policyFailed previousVersion []
        s!"The changeset could not be applied, and not because it conflicts: {applied.detail}")
    else do
      let refused := input.answer .conflict previousVersion []
        ("The changeset conflicts with current canonical in " ++
          ", ".intercalate conflictedPaths ++ ": " ++ applied.detail)
      if input.salvageConflicts then do
        resetWorkspace git env previousVersion
        let outcome ← salvage (appliesCleanly git env previousVersion) input.changeSet.patches
        if outcome.granted.length = 0 then return .error refused
        else do
          let reapplied ← applyPatch git env (combinedPatch outcome.granted)
          if reapplied.clean then return .ok (some outcome)
          else do
            -- each piece applied on its own: they interact
            resetWorkspace git env previousVersion
            return .error refused
      else return .error refused

/-- The loop over the validation commands; the results so far, and whether the last one
failed. -/
def validate : List ValidationCommand → M Rev W (List CommandResult × Bool)
  | [] => return ([], false)
  | command :: commands => do
    let result ← runValidationCommand env command
    if result.exitCode ≠ 0 then return ([result], true)
    else do
      let (results, failed) ← validate commands
      return (result :: results, failed)

/-- The loop of `gradeWithoutEdits`. -/
def gradeCommands : List ValidationCommand → M Rev W (List CommandResult × Bool)
  | [] => return ([], true)
  | command :: commands => do
    let result ← runValidationCommand env command
    if result.exitCode ≠ 0 then return ([result], false)
    else do
      let (results, passed) ← gradeCommands commands
      return (result :: results, passed)

/-- Re-runs validation with the change's own edits to its graders set aside. -/
def gradeWithoutEdits [DecidableEq Tree] (previousVersion : Rev) (graderPaths : List String)
    (commands : List ValidationCommand) : M Rev W GraderEditReport := do
  let applied ← writeTree git env
  await env
  let s ← get
  match git.restore s.worktree previousVersion graderPaths with
  | none => return ⟨graderPaths, none, false⟩
  | some worktree => do
    setWorktree worktree
    let (withoutEdits, allPassed) ← gradeCommands env commands
    await env
    modify fun s => { s with worktree := git.checkoutIndex s.worktree graderPaths }
    let restored ← writeTree git env
    if restored ≠ applied then throw .unrestored
    else return ⟨graderPaths, some withoutEdits, !allPassed⟩

/-- The grading, when the change edits graders and there is something to grade with. -/
def gradeEdits [DecidableEq Tree] (previousVersion : Rev) (graderPaths : List String)
    (commands : List ValidationCommand) : M Rev W (Option GraderEditReport) :=
  if 0 < graderPaths.length ∧ 0 < commands.length then do
    let report ← gradeWithoutEdits git env previousVersion graderPaths commands
    return some report
  else return none

/-- Whether source, index or history are no longer the candidate's. -/
def drifted [DecidableEq Rev] [DecidableEq Tree] (candidateTree : Tree) (previousVersion : Rev) :
    M Rev W Bool := do
  let validatedTree ← writeTree git env
  let validatedHead ← revParseHead git env
  await env
  let s ← get
  let workingChanges := git.changed s.worktree
  await env
  let s ← get
  let unexpectedUntracked := git.untracked s.worktree
  return decide (validatedTree ≠ candidateTree ∨ validatedHead ≠ previousVersion ∨
    0 < workingChanges.length ∨ 0 < unexpectedUntracked.length)

/-- The before half of the comparison red on the command too. -/
def alreadyRed (baseline : Option ValidationBaseline) (label : String) : Bool :=
  match baseline with
  | some baseline => baseline.results.any fun entry =>
    decide (entry.command.label = label) && decide (entry.exitCode ≠ 0)
  | none => false

/-- The entries to promote: what salvage kept, or what was declared. -/
def effectiveEntries (declaredEntries : List (String × FilePatchStatus))
    (salvage : Option SalvageOutcome) :
    Except PathError (List (String × FilePatchStatus)) :=
  match salvage with
  | none => .ok declaredEntries
  | some outcome => outcome.granted.mapM fun filePatch => do
    return (← normalizeRepositoryPath filePatch.path, filePatch.status)

def liftPaths {α : Type} : Except PathError α → M Rev W α
  | .ok a => return a
  | .error e => throw (.path e)

section Promotion

variable [TextRuntime] [DecidableEq Rev] [DecidableEq Tree]

/-- From the validated candidate to the answer: the drift check, the commit and the
promotion. -/
def promoteCandidate (input : IntegrateChangeSetInput) (previousVersion : Rev) (replaying : Bool)
    (salvage : Option SalvageOutcome) (candidateTree : Tree) (validation : List CommandResult)
    (baseline : Option ValidationBaseline) (reproduction : Option ReproductionAttestation)
    (graderEdits : Option GraderEditReport) : M Rev W (IntegrationResult Rev) := do
  let evidence :=
    if (reproduction.map ReproductionAttestation.attested).getD false then .demonstrated
    else validationEvidence input.validationCommands baseline
  if ← drifted git env candidateTree previousVersion then
    return input.answer .policyFailed previousVersion validation
      "A validation command modified repository content or history"
  else do
    let candidate ← commitIndex git env
      ⟨input.commitMessage, input.author, trailersOf input replaying salvage validation evidence
        reproduction baseline graderEdits⟩
    match candidate with
    | none =>
      return input.answer .empty previousVersion validation
        "The applied changeset did not change canonical content"
    | some candidateRevision => do
      let promoted ← promote env candidateRevision previousVersion
      let canonicalVersion ← getCanonicalVersion env
      if promoted then
        return { input.answer .integrated previousVersion validation
            (s!"Promoted {(git.revisionText candidateRevision).take 12} atomically" ++
              match salvage with
              | none => ""
              | some outcome => s!"; salvaged {outcome.granted.length} of " ++
                s!"{input.changeSet.patches.length} file(s) from a conflict, " ++
                s!"{outcome.deferred.length} requeued") with
          canonicalVersion
          candidateRevision := some candidateRevision
          evidence := some evidence
          baseline
          graderEdits
          reproduction
          salvagedDeferred := salvage.map SalvageOutcome.deferred
          salvagedDividedFiles := salvage.map SalvageOutcome.divided }
      else
        return { input.answer .stale previousVersion validation
            "Canonical state changed during validation; the candidate was not promoted" with
          canonicalVersion
          candidateRevision := some candidateRevision }

def validateCandidate (input : IntegrateChangeSetInput) (previousVersion : Rev)
    (replaying : Bool) (baseline : Option ValidationBaseline)
    (reproductionBefore : Option CommandResult) (salvage : Option SalvageOutcome)
    (appliedEntries : List (String × FilePatchStatus)) : M Rev W (IntegrationResult Rev) := do
  let candidateTree ← writeTree git env
  let (validation, failed) ← validate env input.validationCommands
  if failed then
    let label := (validation.getLast?.map fun entry => entry.command.label).getD ""
    let timedOut := (validation.getLast?.map CommandResult.timedOut).getD false
    return { input.answer .validationFailed previousVersion validation
        (s!"Validation failed: {label}" ++ (if timedOut then " (timed out)" else "") ++
          (if alreadyRed baseline label then " (already failing before this change)" else "")) with
      baseline
      evidence := some (validationEvidence input.validationCommands baseline) }
  else do
    let baseline := baseline.map (compareBaseline validation)
    let reproduction ← reproduceAfter env input.reproductionTest reproductionBefore
    let graderPaths := (appliedEntries.map Prod.fst).filter options.isGraderPath
    let graderEdits ← gradeEdits git env previousVersion graderPaths input.validationCommands
    promoteCandidate git env input previousVersion replaying salvage candidateTree validation
      baseline reproduction graderEdits

def integrateInWorkspace (input : IntegrateChangeSetInput) (previousVersion : Rev)
    (declaredEntries : List (String × FilePatchStatus)) (replaying : Bool) :
    M Rev W (IntegrationResult Rev) := do
  let kept := (declaredEntries.filter fun entry => entry.2 ≠ .deleted).map Prod.fst
  let baseline ← collectBaseline git env options previousVersion input.validationCommands
    (input.affectedTestCommand.map fun command => (command, kept))
  let reproductionBefore ← reproduceBefore git env previousVersion input.reproductionTest
  match ← applyChangeSet git env input previousVersion with
  | .error answer => return answer
  | .ok salvage => do
    let entries ← liftPaths (effectiveEntries declaredEntries salvage)
    await env
    let s ← get
    match git.index s.worktree with
    | none => throw (.command s.time)
    | some tree =>
      let appliedEntries := sortByLocale Prod.fst (git.nameStatus (git.tree previousVersion) tree)
      if appliedEntries = sortByLocale Prod.fst entries then
        validateCandidate git env options input previousVersion replaying baseline
          reproductionBefore salvage appliedEntries
      else
        return input.answer .policyFailed previousVersion []
          "Patch contents or statuses do not match the changeset declaration"

def withWarning (result : IntegrationResult Rev) (step : Nat) : IntegrationResult Rev :=
  let warning := s!"Integration workspace cleanup failed: {step}"
  { result with
    cleanupWarnings := result.cleanupWarnings ++ [warning]
    explanation := s!"{result.explanation}; {warning}" }

/-- The integration in a workspace of its own, taken down whatever came of it. -/
def integrateAndCleanUp (input : IntegrateChangeSetInput) (previousVersion : Rev)
    (declaredEntries : List (String × FilePatchStatus)) (replaying : Bool) :
    M Rev W (IntegrationResult Rev) := do
  await env
  setWorktree (git.create previousVersion)
  let outcome ← attempt
    (integrateInWorkspace git env options input previousVersion declaredEntries replaying)
  let s ← get
  let cleanup ← attempt (await env)
  match outcome, cleanup with
  | .error operation, .ok _ => throw operation
  | .error operation, .error _ => throw (.cleanup operation)
  | .ok result, cleanup =>
    let result :=
      if replaying ∧ result.status = .integrated then
        { result with
          replayedFrom := some input.changeSet.baseRevision
          explanation := s!"{result.explanation}; replayed from " ++
            s!"{input.changeSet.baseRevision.take 12} onto a canonical " ++
            "revision that changed nothing it depends on" }
      else result
    match cleanup with
    | .ok _ => return result
    | .error _ => return withWarning result s.time

def integrate (input : IntegrateChangeSetInput) : M Rev W (IntegrationResult Rev) := do
  let previousVersion ← getCanonicalVersion env
  let overtaken := decide (input.changeSet.baseRevision ≠ git.revisionText previousVersion)
  let replaying :=
    overtaken && decide (input.replayableOnto = some (git.revisionText previousVersion))
  if input.requireExactBase ∧ overtaken ∧ ¬replaying then
    return input.answer .stale previousVersion []
      "Canonical state changed after the remote plan; the task must replan"
  else if input.changeSet.patches.length = 0 then
    return input.answer .empty previousVersion [] "The agent produced no repository changes"
  else do
    let declaredEntries ← liftPaths (input.changeSet.patches.mapM fun filePatch => do
      return (← normalizeRepositoryPath filePatch.path, filePatch.status))
    if ¬(declaredEntries.map Prod.fst).Nodup then
      return input.answer .policyFailed previousVersion []
        "The changeset declares the same file more than once"
    else integrateAndCleanUp git env options input previousVersion declaredEntries replaying

end Promotion

end Steps

end AgenticGit.Integration
