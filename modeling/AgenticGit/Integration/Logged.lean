import AgenticGit.Integration.Integrate

/- An integration that notes down which commands it ran, and on what.

   The model of an integration is over any git. `Git.logged` is git in worktrees that come
   with notes, and `Environment.logged` adds a note for each command; nothing reads them.

   What is proved: `integrate_unlogged` — **a call is the same with and without the notes**,
   step by step, so that what the notes say is true of the call. -/
namespace AgenticGit.Integration
open AgenticGit.Runtime AgenticGit.Shared AgenticGit.Repository AgenticGit.Effects

/-! ## Notes -/

/-- A command that was run: what it was run in, and how it exited. -/
structure Ran (W : Type) where
  worktree : W
  command : ValidationCommand
  exitCode : Int

variable {Rev Tree W : Type} {git : Git Rev Tree W} {env : Environment Rev W}
  {options : Options Rev}

/-- Git, in worktrees that come with what was run in them. -/
def Git.logged (git : Git Rev Tree W) : Git Rev Tree (W × List (Ran W)) where
  revisionText := git.revisionText
  tree := git.tree
  parents := git.parents
  commit := git.commit
  patched := git.patched
  accepts := git.accepts
  nameStatus := git.nameStatus
  index w := git.index w.1
  head w := git.head w.1
  create r := (git.create r, [])
  reset w r := (git.reset w.1 r, w.2)
  clean w := (git.clean w.1, w.2)
  apply w p := ⟨((git.apply w.1 p).worktree, w.2), (git.apply w.1 p).clean,
    (git.apply w.1 p).detail⟩
  unmerged w := git.unmerged w.1
  restore w r paths := (git.restore w.1 r paths).map fun w' => (w', w.2)
  checkoutIndex w paths := (git.checkoutIndex w.1 paths, w.2)
  committed w r := (git.committed w.1 r, w.2)
  changed w := git.changed w.1
  untracked w := git.untracked w.1
  tree_commit := git.tree_commit
  parents_commit := git.parents_commit
  index_create := git.index_create
  head_create := git.head_create
  index_reset w := git.index_reset w.1
  head_reset w := git.head_reset w.1
  index_clean w := git.index_clean w.1
  head_clean w := git.head_clean w.1
  head_apply w := git.head_apply w.1
  index_apply w := git.index_apply w.1
  apply_pristine w := git.apply_pristine w.1
  head_restore w r paths w' h := by
    obtain ⟨w₀, hrestore, rfl⟩ := Option.map_eq_some_iff.mp h
    exact git.head_restore w.1 r paths w₀ hrestore
  head_checkoutIndex w := git.head_checkoutIndex w.1
  head_committed w := git.head_committed w.1

def Environment.logged (env : Environment Rev W) : Environment Rev (W × List (Ran W)) where
  meanwhile := env.meanwhile
  fails := env.fails
  locked := env.locked
  run n w command :=
    (((env.run n w.1 command).1, w.2 ++ [⟨w.1, command, (env.run n w.1 command).2.1⟩]),
      (env.run n w.1 command).2)

def State.unlogged (s : State Rev (W × List (Ran W))) : State Rev W :=
  ⟨s.worktree.1, s.canonical, s.time, s.moves, s.found⟩

def Applied.unlogged (applied : Applied (W × List (Ran W))) : Applied W :=
  ⟨applied.worktree.1, applied.clean, applied.detail⟩

/-- A program is the same with and without the notes. -/
abbrev Unlogged {α : Type} (m : M Rev (W × List (Ran W)) α) (n : M Rev W α) : Prop :=
  Seen State.unlogged (fun a => a) m n

section Steps

theorem await_unlogged : Unlogged (await env.logged) (await env) :=
  seen_bind seen_get fun _ => seen_bind (seen_set rfl) fun _ =>
    seen_ite Iff.rfl (seen_throw _) (seen_pure rfl)

theorem unlogged_follow (s : State Rev (W × List (Ran W))) (target : Rev) :
    (s.follow git.logged target).unlogged = s.unlogged.follow git target :=
  apply_ite State.unlogged _ _ _

theorem resetHard_unlogged (revision : Rev) :
    Unlogged (resetHard git.logged env.logged revision) (resetHard git env revision) := by
  refine seen_bind await_unlogged fun _ => seen_modify fun s => ?_
  rw [← unlogged_follow]
  rfl

theorem resetWorkspace_unlogged (revision : Rev) :
    Unlogged (resetWorkspace git.logged env.logged revision) (resetWorkspace git env revision) :=
  seen_bind (resetHard_unlogged revision) fun _ => seen_bind await_unlogged fun _ =>
    seen_modify fun _ => rfl

theorem applyPatch_unlogged (patchText : String) :
    Seen State.unlogged Applied.unlogged (applyPatch git.logged env.logged patchText)
      (applyPatch git env patchText) :=
  seen_bind await_unlogged fun _ => seen_bind seen_get fun _ =>
    seen_bind (seen_modify fun _ => rfl) fun _ => seen_pure rfl

theorem appliesCleanly_unlogged (revision : Rev) (patchText : String) :
    Unlogged (appliesCleanly git.logged env.logged revision patchText)
      (appliesCleanly git env revision patchText) :=
  seen_bind (applyPatch_unlogged patchText) fun _ =>
    seen_bind (resetWorkspace_unlogged revision) fun _ => seen_pure rfl

theorem writeTree_unlogged : Unlogged (writeTree git.logged env.logged) (writeTree git env) := by
  refine seen_bind await_unlogged fun _ => seen_bind seen_get fun s => ?_
  dsimp only [Git.logged, State.unlogged]
  cases git.index s.worktree.1 with
  | some tree => exact seen_pure rfl
  | none => exact seen_throw _

theorem revParseHead_unlogged :
    Unlogged (revParseHead git.logged env.logged) (revParseHead git env) := by
  refine seen_bind await_unlogged fun _ => seen_bind seen_get fun s => ?_
  dsimp only [Git.logged, State.unlogged]
  cases git.head s.worktree.1 with
  | detached revision => exact seen_pure rfl
  | onCanonical => exact seen_pure rfl

theorem runValidationCommand_unlogged (command : ValidationCommand) :
    Unlogged (runValidationCommand env.logged command) (runValidationCommand env command) :=
  seen_bind await_unlogged fun _ => seen_bind seen_get fun _ =>
    seen_bind (seen_modify fun _ => rfl) fun _ => seen_pure rfl

theorem getCanonicalVersion_unlogged :
    Unlogged (getCanonicalVersion env.logged : M Rev _ Rev) (getCanonicalVersion env) :=
  seen_bind await_unlogged fun _ => seen_bind seen_get fun _ => seen_pure rfl

theorem commitIndex_unlogged [DecidableEq Tree] (message : CommitMessage) :
    Unlogged (commitIndex git.logged env.logged message) (commitIndex git env message) := by
  refine seen_bind writeTree_unlogged fun staged => seen_bind revParseHead_unlogged fun parent => ?_
  refine seen_ite Iff.rfl (seen_pure rfl) ?_
  refine seen_bind await_unlogged fun _ => seen_bind seen_get fun s => ?_
  dsimp only [State.unlogged]
  rw [show git.logged.index s.worktree = git.index s.worktree.1 from rfl]
  cases git.index s.worktree.1 with
  | none => exact seen_throw _
  | some tree =>
    refine seen_bind (seen_modify fun t => ?_) fun _ =>
      seen_bind revParseHead_unlogged fun _ => seen_pure rfl
    rw [← unlogged_follow]
    rfl

theorem promote_unlogged [DecidableEq Rev] (candidate expected : Rev) :
    Unlogged (promote env.logged candidate expected : M Rev _ Bool)
      (promote env candidate expected) := by
  refine seen_bind await_unlogged fun _ => seen_bind seen_get fun s => ?_
  refine seen_ite Iff.rfl (seen_bind (seen_set rfl) fun _ => seen_pure rfl) ?_
  refine seen_bind getCanonicalVersion_unlogged fun current => ?_
  refine seen_bind (seen_modify fun _ => rfl) fun _ => ?_
  exact seen_ite Iff.rfl (seen_pure rfl) (seen_ite Iff.rfl (seen_pure rfl) (seen_throw _))

/-! ## The stages -/

theorem runAll_unlogged (commands : List ValidationCommand) :
    Unlogged (runAll env.logged commands : M Rev _ (List CommandResult))
      (runAll env commands) := by
  induction commands with
  | nil => exact seen_pure rfl
  | cons command commands ih =>
    exact seen_bind (runValidationCommand_unlogged command) fun _ =>
      seen_bind ih fun _ => seen_pure rfl

theorem collectBaseline_unlogged (revision : Rev) (commands : List ValidationCommand)
    (affected : Option (ValidationCommand × List String)) :
    Unlogged (collectBaseline git.logged env.logged options revision commands affected)
      (collectBaseline git env options revision commands affected) := by
  refine seen_ite Iff.rfl (seen_pure rfl) ?_
  dsimp only
  split
  · exact seen_pure rfl
  · exact seen_bind (runAll_unlogged _) fun _ =>
      seen_bind (resetHard_unlogged revision) fun _ => seen_pure rfl

theorem reproduceBefore_unlogged (revision : Rev) (test : Option ReproductionTest) :
    Unlogged (reproduceBefore git.logged env.logged revision test)
      (reproduceBefore git env revision test) := by
  cases test with
  | none => exact seen_pure rfl
  | some test =>
    exact seen_bind (runValidationCommand_unlogged test.command) fun _ =>
      seen_bind (resetHard_unlogged revision) fun _ => seen_pure rfl

theorem reproduceAfter_unlogged (test : Option ReproductionTest) (before : Option CommandResult) :
    Unlogged (reproduceAfter env.logged test before : M Rev _ (Option ReproductionAttestation))
      (reproduceAfter env test before) := by
  unfold reproduceAfter
  split
  · exact seen_bind (runValidationCommand_unlogged _) fun _ => seen_pure rfl
  · exact seen_pure rfl

theorem sortHunks_unlogged (revision : Rev) (parsed : ParsedPatch) (hunks : List ParsedHunk) :
    Unlogged (sortHunks (appliesCleanly git.logged env.logged revision) parsed hunks)
      (sortHunks (appliesCleanly git env revision) parsed hunks) := by
  induction hunks with
  | nil => exact seen_pure rfl
  | cons hunk hunks ih =>
    exact seen_bind (appliesCleanly_unlogged revision _) fun _ =>
      seen_bind ih fun _ => seen_pure rfl

theorem salvageFile_unlogged (revision : Rev) (filePatch : FilePatch) :
    Unlogged (salvageFile (appliesCleanly git.logged env.logged revision) filePatch)
      (salvageFile (appliesCleanly git env revision) filePatch) := by
  refine seen_bind (appliesCleanly_unlogged revision _) fun clean => ?_
  refine seen_ite Iff.rfl (seen_pure rfl) ?_
  cases parseUnifiedPatch filePatch.patch with
  | none => exact seen_pure rfl
  | some parsed =>
    refine seen_ite Iff.rfl (seen_pure rfl) ?_
    refine seen_bind (sortHunks_unlogged revision parsed _) fun sides => ?_
    exact seen_ite Iff.rfl (seen_pure rfl) (seen_pure rfl)

theorem salvage_unlogged (revision : Rev) (patches : List FilePatch) :
    Unlogged (salvage (appliesCleanly git.logged env.logged revision) patches)
      (salvage (appliesCleanly git env revision) patches) := by
  induction patches with
  | nil => exact seen_pure rfl
  | cons filePatch patches ih =>
    exact seen_bind (salvageFile_unlogged revision filePatch) fun _ =>
      seen_bind ih fun _ => seen_pure rfl

theorem applyChangeSet_unlogged (input : IntegrateChangeSetInput) (previousVersion : Rev) :
    Unlogged (applyChangeSet git.logged env.logged input previousVersion)
      (applyChangeSet git env input previousVersion) := by
  refine seen_bind (applyPatch_unlogged _) fun applied => ?_
  refine seen_ite Iff.rfl (seen_pure rfl) ?_
  refine seen_bind await_unlogged fun _ => seen_bind seen_get fun s => ?_
  refine seen_ite Iff.rfl (seen_pure rfl) ?_
  refine seen_ite Iff.rfl ?_ (seen_pure rfl)
  refine seen_bind (resetWorkspace_unlogged previousVersion) fun _ => ?_
  refine seen_bind (salvage_unlogged previousVersion _) fun outcome => ?_
  refine seen_ite Iff.rfl (seen_pure rfl) ?_
  refine seen_bind (applyPatch_unlogged _) fun reapplied => ?_
  refine seen_ite Iff.rfl (seen_pure rfl) ?_
  exact seen_bind (resetWorkspace_unlogged previousVersion) fun _ => seen_pure rfl

theorem validate_unlogged (commands : List ValidationCommand) :
    Unlogged (validate env.logged commands : M Rev _ (List CommandResult × Bool))
      (validate env commands) := by
  induction commands with
  | nil => exact seen_pure rfl
  | cons command commands ih =>
    refine seen_bind (runValidationCommand_unlogged command) fun _ => ?_
    exact seen_ite Iff.rfl (seen_pure rfl) (seen_bind ih fun _ => seen_pure rfl)

theorem gradeCommands_unlogged (commands : List ValidationCommand) :
    Unlogged (gradeCommands env.logged commands : M Rev _ (List CommandResult × Bool))
      (gradeCommands env commands) := by
  induction commands with
  | nil => exact seen_pure rfl
  | cons command commands ih =>
    refine seen_bind (runValidationCommand_unlogged command) fun _ => ?_
    exact seen_ite Iff.rfl (seen_pure rfl) (seen_bind ih fun _ => seen_pure rfl)

theorem gradeWithoutEdits_unlogged [DecidableEq Tree] (previousVersion : Rev)
    (graderPaths : List String) (commands : List ValidationCommand) :
    Unlogged (gradeWithoutEdits git.logged env.logged previousVersion graderPaths commands)
      (gradeWithoutEdits git env previousVersion graderPaths commands) := by
  refine seen_bind writeTree_unlogged fun applied => seen_bind await_unlogged fun _ => ?_
  refine seen_bind seen_get fun s => ?_
  dsimp only [State.unlogged]
  rw [show git.logged.restore s.worktree previousVersion graderPaths =
    (git.restore s.worktree.1 previousVersion graderPaths).map fun w => (w, s.worktree.2) from rfl]
  cases git.restore s.worktree.1 previousVersion graderPaths with
  | none => exact seen_pure rfl
  | some worktree =>
    refine seen_bind (seen_modify fun _ => rfl) fun _ => ?_
    refine seen_bind (gradeCommands_unlogged commands) fun graded => ?_
    refine seen_bind await_unlogged fun _ => seen_bind (seen_modify fun _ => rfl) fun _ => ?_
    exact seen_bind writeTree_unlogged fun _ => seen_ite Iff.rfl (seen_throw _) (seen_pure rfl)

theorem gradeEdits_unlogged [DecidableEq Tree] (previousVersion : Rev)
    (graderPaths : List String) (commands : List ValidationCommand) :
    Unlogged (gradeEdits git.logged env.logged previousVersion graderPaths commands)
      (gradeEdits git env previousVersion graderPaths commands) :=
  seen_ite Iff.rfl (seen_bind (gradeWithoutEdits_unlogged previousVersion graderPaths commands)
    fun _ => seen_pure rfl) (seen_pure rfl)

theorem drifted_unlogged [DecidableEq Rev] [DecidableEq Tree] (candidateTree : Tree)
    (previousVersion : Rev) :
    Unlogged (drifted git.logged env.logged candidateTree previousVersion)
      (drifted git env candidateTree previousVersion) :=
  seen_bind writeTree_unlogged fun _ => seen_bind revParseHead_unlogged fun _ =>
    seen_bind await_unlogged fun _ => seen_bind seen_get fun _ =>
    seen_bind await_unlogged fun _ => seen_bind seen_get fun _ => seen_pure rfl

theorem liftPaths_unlogged {α : Type} (paths : Except PathError α) :
    Unlogged (liftPaths paths : M Rev (W × List (Ran W)) α) (liftPaths paths) := by
  cases paths with
  | ok a => exact seen_pure rfl
  | error e => exact seen_throw _

section Promotion

variable [DecidableEq Rev] [DecidableEq Tree]

theorem promoteCandidate_unlogged (input : IntegrateChangeSetInput) (previousVersion : Rev)
    (replaying : Bool) (salvage : Option SalvageOutcome) (candidateTree : Tree)
    (validation : List CommandResult) (baseline : Option ValidationBaseline)
    (reproduction : Option ReproductionAttestation) (graderEdits : Option GraderEditReport) :
    Unlogged (promoteCandidate git.logged env.logged input previousVersion replaying salvage
        candidateTree validation baseline reproduction graderEdits)
      (promoteCandidate git env input previousVersion replaying salvage candidateTree validation
        baseline reproduction graderEdits) := by
  refine seen_bind (drifted_unlogged candidateTree previousVersion) fun drift => ?_
  refine seen_ite Iff.rfl (seen_pure rfl) ?_
  refine seen_bind (commitIndex_unlogged _) fun candidate => ?_
  cases candidate with
  | none => exact seen_pure rfl
  | some candidateRevision =>
    refine seen_bind (promote_unlogged candidateRevision previousVersion) fun promoted => ?_
    refine seen_bind getCanonicalVersion_unlogged fun canonicalVersion => ?_
    exact seen_ite Iff.rfl (seen_pure rfl) (seen_pure rfl)

theorem validateCandidate_unlogged (input : IntegrateChangeSetInput) (previousVersion : Rev)
    (replaying : Bool) (baseline : Option ValidationBaseline)
    (reproductionBefore : Option CommandResult) (salvage : Option SalvageOutcome)
    (appliedEntries : List (String × FilePatchStatus)) :
    Unlogged (validateCandidate git.logged env.logged options input previousVersion replaying
        baseline reproductionBefore salvage appliedEntries)
      (validateCandidate git env options input previousVersion replaying baseline
        reproductionBefore salvage appliedEntries) := by
  refine seen_bind writeTree_unlogged fun candidateTree => ?_
  refine seen_bind (validate_unlogged _) fun validation => ?_
  refine seen_ite Iff.rfl (seen_pure rfl) ?_
  refine seen_bind (reproduceAfter_unlogged _ _) fun reproduction => ?_
  refine seen_bind (gradeEdits_unlogged _ _ _) fun graderEdits => ?_
  exact promoteCandidate_unlogged input previousVersion replaying salvage candidateTree _ _ _ _

variable [TextRuntime]

theorem integrateInWorkspace_unlogged (input : IntegrateChangeSetInput) (previousVersion : Rev)
    (declared : List (String × FilePatchStatus)) (replaying : Bool) :
    Unlogged
      (integrateInWorkspace git.logged env.logged options input previousVersion declared replaying)
      (integrateInWorkspace git env options input previousVersion declared replaying) := by
  refine seen_bind (collectBaseline_unlogged _ _ _) fun baseline => ?_
  refine seen_bind (reproduceBefore_unlogged _ _) fun reproductionBefore => ?_
  refine seen_bind (applyChangeSet_unlogged input previousVersion) fun applied => ?_
  cases applied with
  | error answer => exact seen_pure rfl
  | ok salvage =>
    refine seen_bind (liftPaths_unlogged _) fun entries => ?_
    refine seen_bind await_unlogged fun _ => seen_bind seen_get fun s => ?_
    dsimp only [State.unlogged]
    rw [show git.logged.index s.worktree = git.index s.worktree.1 from rfl]
    cases git.index s.worktree.1 with
    | none => exact seen_throw _
    | some tree =>
      exact seen_ite Iff.rfl
        (validateCandidate_unlogged input previousVersion replaying _ _ _ _) (seen_pure rfl)

theorem integrateAndCleanUp_unlogged (input : IntegrateChangeSetInput) (previousVersion : Rev)
    (declared : List (String × FilePatchStatus)) (replaying : Bool) :
    Unlogged
      (integrateAndCleanUp git.logged env.logged options input previousVersion declared replaying)
      (integrateAndCleanUp git env options input previousVersion declared replaying) := by
  refine seen_bind await_unlogged fun _ => seen_bind (seen_modify fun _ => rfl) fun _ => ?_
  refine seen_bind (seen_attempt (integrateInWorkspace_unlogged input previousVersion declared
    replaying)) fun outcome => seen_bind seen_get fun s => ?_
  refine seen_bind (seen_attempt await_unlogged) fun cleanup => ?_
  cases outcome with
  | error operation =>
    cases cleanup with
    | ok _ => exact seen_throw _
    | error _ => exact seen_throw _
  | ok result =>
    cases cleanup with
    | ok _ => exact seen_pure rfl
    | error _ => exact seen_pure rfl

/-- **A call is the same with and without the notes.** -/
theorem integrate_unlogged (input : IntegrateChangeSetInput) :
    Unlogged (integrate git.logged env.logged options input)
      (integrate git env options input) := by
  refine seen_bind getCanonicalVersion_unlogged fun previousVersion => ?_
  refine seen_ite Iff.rfl (seen_pure rfl) (seen_ite Iff.rfl (seen_pure rfl) ?_)
  refine seen_bind (liftPaths_unlogged _) fun declared => ?_
  exact seen_ite Iff.rfl (seen_pure rfl)
    (integrateAndCleanUp_unlogged input previousVersion declared _)

end Promotion

end Steps

end AgenticGit.Integration
