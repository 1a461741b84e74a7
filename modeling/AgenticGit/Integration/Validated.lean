import AgenticGit.Integration.Promoted
import AgenticGit.Integration.Logged

/- What an integration promotes is what it validated (`integration-service/src/index.ts`).

   The drift check compares the ends: index, HEAD and files after the last command with the
   candidate. What a command did and a later one undid, or what the end of the grading puts
   back, it does not see; nor does it see what HEAD is attached to.

   What is proved:
     1. `promotes_validated` — **canonical moves once, to a commit of the granted patches on
        which every configured command passed**, and any other answer or exception moves
        nothing, when the commands, the others and the reads are as in `Trustworthy`.
     2. `attached_overtaken` — a command that attaches HEAD has the commit made on whatever
        others promoted since. -/
namespace AgenticGit.Integration
open AgenticGit.Runtime AgenticGit.Shared AgenticGit.Effects
open AgenticGit.Coordinator (IntegrationStatus sortByLocale)

variable {Rev Tree W : Type} {git : Git Rev Tree W} {env : Environment Rev W}
  {options : Options Rev}

/-! ## The files of a worktree -/

/-- What is documented of the files that git writes. -/
structure Git.KeepsFiles (git : Git Rev Tree W) : Prop where
  changed_create : ∀ r, git.changed (git.create r) = []
  changed_reset : ∀ w r, git.changed (git.reset w r) = []
  changed_clean : ∀ w, git.changed (git.clean w) = git.changed w
  /-- `apply --index`: index and files alike. -/
  changed_apply : ∀ w p, git.changed w = [] → (git.apply w p).clean = true →
    git.changed (git.apply w p).worktree = []
  /-- `restore --worktree` leaves the index. -/
  index_restore : ∀ w r paths w', git.restore w r paths = some w' → git.index w' = git.index w
  changed_restore : ∀ w r paths w', git.restore w r paths = some w' →
    ∀ path ∈ git.changed w, path ∉ paths → path ∈ git.changed w'
  index_checkoutIndex : ∀ w paths, git.index (git.checkoutIndex w paths) = git.index w
  changed_checkoutIndex : ∀ w paths, ∀ path ∈ git.changed w, path ∉ paths →
    path ∈ git.changed (git.checkoutIndex w paths)

def Intact (git : Git Rev Tree W) (tree : Tree) (w : W) : Prop :=
  Holding git tree w ∧ git.changed w = []

/-- The index, or a file that is no grader, is not as in the tree. -/
def Disturbed (git : Git Rev Tree W) (graderPaths : List String) (tree : Tree) (w : W) : Prop :=
  ¬Holding git tree w ∨ ∃ path ∈ git.changed w, path ∉ graderPaths

theorem Intact.undisturbed {graderPaths : List String} {tree : Tree} {w : W}
    (h : Intact git tree w) : ¬Disturbed git graderPaths tree w := by
  rintro (hindex | ⟨path, hpath, -⟩)
  · exact hindex h.1
  · rw [h.2] at hpath
    cases hpath

/-- What one command did to the workspace, no later one and not the end of the grading
undoes. -/
structure Environment.Undisturbing (env : Environment Rev W) (git : Git Rev Tree W)
    (tree : Tree) (graderPaths : List String) : Prop where
  remains : env.Leaves (Disturbed git graderPaths tree)
  whole : ∀ n w command, Intact git tree w → Intact git tree (env.run n w command).1 ∨
    Disturbed git graderPaths tree (env.run n w command).1

def graderPathsOf [TextRuntime] (git : Git Rev Tree W) (options : Options Rev)
    (previousVersion : Rev) (tree : Tree) : List String :=
  ((sortByLocale Prod.fst (git.nameStatus (git.tree previousVersion) tree)).map Prod.fst).filter
    options.isGraderPath

def Unmade (git : Git Rev Tree W) (input : IntegrateChangeSetInput) (previousVersion : Rev)
    (revision : Rev) : Prop := ∀ tree, ¬Made git input previousVersion tree revision

/-- **When what is promoted is what was validated**: no command attaches HEAD to the
canonical branch, none undoes what another did to the candidate, nobody else promotes the
commit this call makes, and canonical can be read after the promotion. -/
structure Trustworthy [TextRuntime] (git : Git Rev Tree W) (env : Environment Rev W)
    (options : Options Rev) (input : IntegrateChangeSetInput) (previousVersion : Rev) :
    Prop where
  head : env.KeepsHead git
  commands : ∀ salvage tree, Candidate git input previousVersion salvage tree →
    env.Undisturbing git tree (graderPathsOf git options previousVersion tree)
  others : env.Keeps (Unmade git input previousVersion)
  /-- The read is the step after the one that moves the branch. -/
  reads : ∀ n, env.locked n = false → env.fails n = false

/-! ## What the notes say -/

/-- The commands ran on the tree, and each exited zero. -/
structure Passed (git : Git Rev Tree W) (tree : Tree) (commands : List ValidationCommand)
    (runs : List (Ran W)) : Prop where
  commands : runs.map Ran.command = commands
  passed : ∀ run ∈ runs, run.exitCode = 0 ∧ Intact git tree run.worktree

def Validated (git : Git Rev Tree W) (tree : Tree) (commands : List ValidationCommand)
    (notes : List (Ran W)) : Prop :=
  ∃ before runs after, notes = before ++ runs ++ after ∧ Passed git tree commands runs

theorem Validated.append {tree : Tree} {commands : List ValidationCommand} {notes : List (Ran W)}
    (h : Validated git tree commands notes) (more : List (Ran W)) :
    Validated git tree commands (notes ++ more) := by
  obtain ⟨before, runs, after, rfl, hpassed⟩ := h
  exact ⟨before, runs, after ++ more, by rw [List.append_assoc], hpassed⟩

/-- The workspace is disturbed for good, or the commands so far passed on the tree, which is
still there. -/
def Going (git : Git Rev Tree W) (tree : Tree) (graderPaths : List String)
    (commands : List ValidationCommand) (w : W × List (Ran W)) : Prop :=
  Disturbed git graderPaths tree w.1 ∨
    (Intact git tree w.1 ∧ ∃ before runs, w.2 = before ++ runs ∧ Passed git tree commands runs)

theorem going_nil {tree : Tree} {graderPaths : List String} {w : W × List (Ran W)}
    (h : Intact git tree w.1) : Going git tree graderPaths [] w :=
  .inr ⟨h, w.2, [], (List.append_nil _).symm, rfl, fun _ hrun => by cases hrun⟩

theorem Going.run {tree : Tree} {graderPaths : List String} {done : List ValidationCommand}
    {w : W × List (Ran W)} (h : Going git tree graderPaths done w)
    (hcommands : env.Undisturbing git tree graderPaths) (n : Nat) (command : ValidationCommand)
    (hexit : (env.run n w.1 command).2.1 = 0) :
    Going git tree graderPaths (done ++ [command]) (env.logged.run n w command).1 := by
  obtain hdisturbed | ⟨hintact, before, runs, hnotes, hpassed⟩ := h
  · exact .inl (hcommands.remains n w.1 command hdisturbed)
  · refine (hcommands.whole n w.1 command hintact).symm.imp id fun hafter => ⟨hafter, before,
      runs ++ [⟨w.1, command, (env.run n w.1 command).2.1⟩], ?_, ?_, ?_⟩
    · change w.2 ++ _ = _
      rw [hnotes, List.append_assoc]
    · rw [List.map_append, hpassed.commands]
      rfl
    · intro run hrun
      obtain hrun | hrun := List.mem_append.mp hrun
      · exact hpassed.passed run hrun
      · obtain rfl := List.mem_singleton.mp hrun
        exact ⟨hexit, hintact⟩

/-- The workspace is disturbed for good, or all the commands passed on the tree. -/
def Sound (git : Git Rev Tree W) (tree : Tree) (graderPaths : List String)
    (commands : List ValidationCommand) (w : W × List (Ran W)) : Prop :=
  Disturbed git graderPaths tree w.1 ∨ Validated git tree commands w.2

/-- Sound, and the tree is still there unless it is disturbed. -/
def Kept (git : Git Rev Tree W) (tree : Tree) (graderPaths : List String)
    (commands : List ValidationCommand) (w : W × List (Ran W)) : Prop :=
  Disturbed git graderPaths tree w.1 ∨ (Intact git tree w.1 ∧ Validated git tree commands w.2)

theorem Going.kept {tree : Tree} {graderPaths : List String} {commands : List ValidationCommand}
    {w : W × List (Ran W)} (h : Going git tree graderPaths commands w) :
    Kept git tree graderPaths commands w :=
  h.imp id fun ⟨hintact, before, runs, hnotes, hpassed⟩ =>
    ⟨hintact, before, runs, [], by rw [List.append_nil]; exact hnotes, hpassed⟩

theorem Kept.sound {tree : Tree} {graderPaths : List String} {commands : List ValidationCommand}
    {w : W × List (Ran W)} (h : Kept git tree graderPaths commands w) :
    Sound git tree graderPaths commands w := h.imp id fun h => h.2

section Commands

variable {tree : Tree} {graderPaths : List String}
  (hcommands : env.Undisturbing git tree graderPaths)

include hcommands

theorem kept_leaves (commands : List ValidationCommand) :
    env.logged.Leaves (Kept git tree graderPaths commands) := by
  rintro n w command (hdisturbed | ⟨hintact, hvalidated⟩)
  · exact .inl (hcommands.remains n w.1 command hdisturbed)
  · exact (hcommands.whole n w.1 command hintact).symm.imp id
      fun hafter => ⟨hafter, hvalidated.append _⟩

theorem sound_leaves (commands : List ValidationCommand) :
    env.logged.Leaves (Sound git tree graderPaths commands) := by
  rintro n w command (hdisturbed | hvalidated)
  · exact .inl (hcommands.remains n w.1 command hdisturbed)
  · exact .inr (hvalidated.append _)

end Commands

theorem Disturbed.regraded (hfiles : git.KeepsFiles) (previousVersion : Rev) (tree : Tree)
    (graderPaths : List String) :
    Regraded git previousVersion graderPaths (Disturbed git graderPaths tree) where
  restore w w' h hrestore := by
    refine h.imp (fun hindex => ?_) fun ⟨path, hpath, hnone⟩ =>
      ⟨path, hfiles.changed_restore w _ _ w' hrestore path hpath hnone, hnone⟩
    rw [Holding, hfiles.index_restore w _ _ w' hrestore]
    exact hindex
  checkoutIndex w h := by
    refine h.imp (fun hindex => ?_) fun ⟨path, hpath, hnone⟩ =>
      ⟨path, hfiles.changed_checkoutIndex w _ path hpath hnone, hnone⟩
    rw [Holding, hfiles.index_checkoutIndex]
    exact hindex

theorem sound_regraded (hfiles : git.KeepsFiles) (previousVersion : Rev) (tree : Tree)
    (graderPaths : List String) (commands : List ValidationCommand) :
    Regraded git.logged previousVersion graderPaths (Sound git tree graderPaths commands) where
  restore w w' h hrestore := by
    obtain ⟨w₀, hrestored, rfl⟩ := Option.map_eq_some_iff.mp hrestore
    exact h.imp (fun h => (Disturbed.regraded hfiles previousVersion tree graderPaths).restore
      w.1 w₀ h hrestored) id
  checkoutIndex w h :=
    h.imp ((Disturbed.regraded hfiles previousVersion tree graderPaths).checkoutIndex _) id

variable {graderPaths : List String}

theorem Sound.validated {tree : Tree} {commands : List ValidationCommand} {w : W × List (Ran W)}
    (h : Sound git tree graderPaths commands w) (hindex : Holding git tree w.1)
    (hclean : git.changed w.1 = []) : Validated git tree commands w.2 :=
  h.resolve_left (Intact.undisturbed ⟨hindex, hclean⟩)

theorem keepsHead_logged (hhead : env.KeepsHead git) : env.logged.KeepsHead git.logged :=
  fun n w command hoff => hhead n w.1 command hoff

theorem keeps_logged {c : Rev → Prop} (hc : env.Keeps c) : env.logged.Keeps c := hc

theorem validate_going {c : Rev → Prop} (hc : env.Keeps c) (hhead : env.KeepsHead git) {tree : Tree}
    (hcommands : env.Undisturbing git tree graderPaths) (commands done : List ValidationCommand) :
    Triple (At git.logged c (Going git tree graderPaths done)) (validate env.logged commands)
      (fun answer => At git.logged c fun w =>
        answer.2 = false → Going git tree graderPaths (done ++ commands) w)
      (fun s => s.moves = []) := by
  induction commands generalizing done with
  | nil =>
    refine triple_pure fun s hs => hs.imp fun w hw _ => ?_
    rw [List.append_nil]
    exact hw
  | cons command commands ih =>
    refine triple_bind (runValidationCommand_from (fun _ hs => hs) (keeps_logged hc)
      (keepsHead_logged hhead) command) fun result => ?_
    refine triple_ite (fun _ => triple_pure fun s hs => hs.imp fun _ _ hpassed => ?_) fun hexit => ?_
    · cases hpassed
    · refine triple_bind ((ih (done ++ [command])).pre fun s hs => hs.imp ?_) fun answer =>
        triple_pure fun s hs => hs.imp fun w hw hpassed => ?_
      · rintro w ⟨n, w₀, hw, rfl, hresult⟩
        exact hw.run hcommands n command (hresult.symm.trans (not_not.mp hexit))
      · have hgoing := hw hpassed
        rw [List.append_assoc] at hgoing
        exact hgoing

/-! ## What is promoted -/

/-- An integrated answer: canonical was moved once, to a commit of the granted patches on what
it was moved from, and every configured command passed on that tree. -/
structure PromotedValidated (git : Git Rev Tree W) (input : IntegrateChangeSetInput)
    (answer : IntegrationResult Rev) (candidate : Rev) (granted : List FilePatch)
    (salvage : Option SalvageOutcome) (entries : List (String × FilePatchStatus))
    (s : State Rev (W × List (Ran W))) : Prop where
  landed : Landed git input answer candidate granted salvage
  moved : s.moves = [⟨answer.previousVersion, candidate⟩]
  declared : declaredEntries granted = .ok entries
  touched : (git.nameStatus (git.tree answer.previousVersion) (git.tree candidate)).Perm entries
  validated : Validated git (git.tree candidate) input.validationCommands s.worktree.2

def PromotesValidated (git : Git Rev Tree W) (input : IntegrateChangeSetInput)
    (answer : IntegrationResult Rev) (s : State Rev (W × List (Ran W))) : Prop :=
  if answer.status = .integrated then ∃ candidate granted salvage entries,
    PromotedValidated git input answer candidate granted salvage entries s
  else s.moves = []

theorem Landed.restated {input : IntegrateChangeSetInput} {answer answer' : IntegrationResult Rev}
    {candidate : Rev} {granted : List FilePatch} {salvage : Option SalvageOutcome}
    (h : Landed git input answer candidate granted salvage) (hsame : answer'.Restates answer) :
    Landed git input answer' candidate granted salvage where
  candidateRevision := hsame.candidateRevision.trans h.candidateRevision
  parents := by rw [hsame.previousVersion, h.parents]
  tree := by rw [hsame.previousVersion, h.tree]
  granted := by
    rw [hsame.previousVersion]
    exact h.granted
  deferred := hsame.deferred.trans h.deferred
  divided := hsame.divided.trans h.divided

theorem promotesValidated_concludes (input : IntegrateChangeSetInput) :
    Concludes (PromotesValidated git input) (fun s => s.moves = []) where
  other status hanswer hstatus hs := by
    rw [PromotesValidated, if_neg (by rw [hanswer]; exact hstatus)]
    exact hs
  thrown _ hs := hs
  clock answer s time canonical h := by
    unfold PromotesValidated at h ⊢
    split
    · rename_i hintegrated
      rw [if_pos hintegrated] at h
      obtain ⟨candidate, granted, salvage, entries, hlanded, hmoved, hdeclared, htouched,
        hvalidated⟩ := h
      exact ⟨candidate, granted, salvage, entries, hlanded, hmoved, hdeclared, htouched, hvalidated⟩
    · rename_i hother
      rw [if_neg hother] at h
      exact h
  thrownClock _ _ _ h := h
  restated answer answer' s hsame h := by
    unfold PromotesValidated at h ⊢
    rw [hsame.status]
    split
    · rename_i hintegrated
      rw [if_pos hintegrated] at h
      obtain ⟨candidate, granted, salvage, entries, hlanded, hmoved, hdeclared, htouched,
        hvalidated⟩ := h
      refine ⟨candidate, granted, salvage, entries, hlanded.restated hsame, ?_, hdeclared, ?_,
        hvalidated⟩
      · rw [hsame.previousVersion]
        exact hmoved
      · rw [hsame.previousVersion]
        exact htouched
    · rename_i hother
      rw [if_neg hother] at h
      exact h

theorem prepared_unchanged (hfiles : git.KeepsFiles) :
    Prepared git.logged fun w => git.changed w.1 = [] where
  create := hfiles.changed_create
  reset w := hfiles.changed_reset w.1
  clean w h := (hfiles.changed_clean w.1).trans h
  apply w p h hclean := hfiles.changed_apply w.1 p h hclean

section Stages

variable [DecidableEq Rev] [DecidableEq Tree] [TextRuntime]

variable {input : IntegrateChangeSetInput} {previousVersion : Rev}

omit [DecidableEq Rev] [DecidableEq Tree] in
theorem Lands.validated {salvage : Option SalvageOutcome} {tree : Tree} {granted : List FilePatch}
    {entries : List (String × FilePatchStatus)}
    (hdeclared : AsDeclared git input previousVersion salvage tree granted entries)
    {validation : List CommandResult} {answer : IntegrationResult Rev} {candidate : Rev}
    {s : State Rev (W × List (Ran W))} (h : Lands git.logged (Unmade git input previousVersion)
      (fun w => Validated git tree input.validationCommands w.2) input previousVersion tree salvage
      validation answer candidate s) :
    PromotedValidated git input answer candidate granted salvage entries s := by
  obtain ⟨-, rfl, hrevision, -, hdeferred, hdivided, hmade, hpromoted⟩ := h
  have hmade : Made git input answer.previousVersion tree candidate := hmade
  have htree := hmade.tree
  refine ⟨⟨hrevision, hmade.parents, htree.trans hdeclared.patched, hdeclared.grants, hdeferred,
    hdivided⟩, ?_, hdeclared.declared, ?_, ?_⟩
  · cases hpromoted.promotes with
    | moved hmoves => exact hmoves
    | found hstill => exact absurd hmade (hpromoted.ours rfl hstill tree)
  · have happlied := hdeclared.applied
    rw [htree]
    exact ((List.perm_insertionSort _ _).symm.trans (List.Perm.of_eq happlied)).trans
      (List.perm_insertionSort _ _)
  · rw [htree]
    exact hpromoted.worktree

theorem validateCandidate_validated (hfiles : git.KeepsFiles)
    (h : Trustworthy git env options input previousVersion) :
    Concluded git.logged env.logged options (Unmade git input previousVersion)
      (fun w => git.changed w.1 = []) input previousVersion (PromotesValidated git input)
      (fun s => s.moves = []) := by
  intro replaying baseline reproductionBefore salvage tree granted entries hdeclared
  have hE : ∀ s : State Rev (W × List (Ran W)), s.moves = [] → s.moves = [] := fun s hs => hs
  have hhead := keepsHead_logged h.head
  have hothers := keeps_logged h.others
  have hdeclared : AsDeclared git input previousVersion salvage tree granted entries :=
    ⟨hdeclared.grants, hdeclared.patched, hdeclared.declared, hdeclared.applied⟩
  have hcommands := h.commands salvage tree ⟨granted, hdeclared.grants, hdeclared.patched⟩
  unfold validateCandidate
  refine triple_bind (writeTree_at hE hothers) fun candidateTree => ?_
  refine Triple.pre (P := fun s => candidateTree = tree ∧ At git.logged _ (Going git tree
    (graderPathsOf git options previousVersion tree) []) s) (triple_assume ?_) fun s hs =>
      ⟨Option.some.inj (hs.worktree.2.symm.trans hs.worktree.1.1),
        hs.imp fun w hw => going_nil hw.1⟩
  rintro rfl
  refine triple_bind (validate_going h.others h.head hcommands input.validationCommands [])
    fun validation => ?_
  refine triple_ite (fun _ => triple_pure fun s hs =>
    (promotesValidated_concludes input).other .validationFailed rfl (by decide) hs.still)
    fun hpassed => ?_
  refine Triple.pre (P := At git.logged _ (Kept git candidateTree
    (graderPathsOf git options previousVersion candidateTree) input.validationCommands)) ?_
    fun s hs => hs.imp fun w hw => (hw (Bool.eq_false_iff.mpr hpassed)).kept
  refine triple_bind (reproduceAfter_at hE hothers hhead (kept_leaves hcommands _) _ _)
    fun reproduction => ?_
  refine triple_bind ((gradeEdits_at hE hothers hhead (sound_leaves hcommands _)
    (sound_regraded hfiles previousVersion candidateTree _ _) _).pre fun s hs =>
      hs.imp fun w hw => hw.sound) fun graderEdits => ?_
  refine promoteCandidate_at (promotesValidated_concludes input) hothers input previousVersion
    replaying salvage candidateTree _ _ _ _ (fun _ _ hw => hw)
    (fun w hw hindex hclean => hw.validated hindex hclean) ?_ ?_
  · intro answer candidate s hlands
    rw [PromotesValidated, if_pos hlands.status]
    exact ⟨candidate, granted, salvage, entries, hlands.validated hdeclared⟩
  · intro candidate promoted s _ _ hlocked hfails
    by_contra hmoves
    have hread := h.reads s.time (hlocked hmoves)
    rw [show env.fails s.time = true from hfails] at hread
    cases hread

/-- **What is promoted is what was validated.** -/
theorem promotes_validated (hfiles : git.KeepsFiles) (input : IntegrateChangeSetInput)
    (previousVersion : Rev) (h : Trustworthy git env options input previousVersion) :
    Unlogged (integrate git.logged env.logged options input) (integrate git env options input) ∧
      Triple (Before env.logged (Unmade git input previousVersion) previousVersion)
        (integrate git.logged env.logged options input) (PromotesValidated git input)
        (fun s => s.moves = []) :=
  ⟨integrate_unlogged input, integrate_of_candidate (promotesValidated_concludes input)
    (keeps_logged h.others)
    (keepsHead_logged h.head) (prepared_unchanged hfiles) (validateCandidate_validated hfiles h)⟩

end Stages

/-! ## A command that attaches HEAD -/

theorem textGit_keepsFiles : textGit.KeepsFiles where
  changed_create _ := rfl
  changed_reset _ _ := rfl
  changed_clean _ := rfl
  changed_apply _ _ _ _ := rfl
  index_restore w r paths w' h := by rw [Option.some.inj h]
  changed_restore _ _ _ _ _ _ h _ := h
  index_checkoutIndex _ _ := rfl
  changed_checkoutIndex _ _ _ h _ := h

def oneCommand : IntegrateChangeSetInput :=
  { onePatch with validationCommands := [⟨"sh", ["test.sh"], "tests", false⟩] }

/-- No baseline is measured, and no path is a grader. -/
def unmeasured : Options (List String) := ⟨true, fun _ _ => none, fun _ => false⟩

def atA : State (List String) ((Option String × Head (List String)) ×
    List (Ran (Option String × Head (List String)))) :=
  ⟨((none, .detached []), []), ["a"], 0, [], []⟩

def answered {Rev W : Type}
    (result : EStateM.Result IntegrationError (State Rev W) (IntegrationResult Rev)) :
    Option (IntegrationResult Rev) :=
  match result with
  | .ok answer _ => some answer
  | .error _ _ => none

theorem answered_ok {Rev W : Type}
    {result : EStateM.Result IntegrationError (State Rev W) (IntegrationResult Rev)}
    {answer : IntegrationResult Rev} (h : answered result = some answer) :
    ∃ s, result = .ok answer s := by
  cases result with
  | ok other s => exact ⟨s, by rw [Option.some.inj h]⟩
  | error e s => cases h

theorem trustworthy_calm [TextRuntime] :
    Trustworthy textGit calm unmeasured oneCommand ["a"] where
  head _ _ _ hoff := hoff
  commands _ _ _ := ⟨fun _ _ _ h => h, fun _ _ _ h => .inl h⟩
  others _ _ h := h
  reads _ _ := rfl

theorem oneCommand_integrated : (answered (@integrate _ _ _ textGit.logged calm.logged unmeasured
    asciiRuntime _ _ oneCommand atA)).map IntegrationResult.status = some .integrated := by
  decide +kernel

theorem promotes_validated_oneCommand : ∃ answer s,
    @integrate _ _ _ textGit.logged calm.logged unmeasured asciiRuntime _ _ oneCommand atA =
      .ok answer s ∧ answer.status = .integrated ∧ PromotesValidated textGit oneCommand answer s := by
  have hbefore : Before calm.logged (Unmade textGit oneCommand ["a"]) ["a"] atA := by
    refine ⟨rfl, ?_, rfl⟩
    rintro tree ⟨_, _, _, _, _, _, _, hmade⟩
    cases hmade
  obtain ⟨answer, hanswer, hstatus⟩ := Option.map_eq_some_iff.mp oneCommand_integrated
  obtain ⟨s, hrun⟩ := answered_ok hanswer
  obtain ⟨-, hpromotes⟩ := @promotes_validated _ _ _ textGit calm unmeasured _ _ asciiRuntime
    textGit_keepsFiles oneCommand ["a"] (@trustworthy_calm asciiRuntime)
  have hpost := hpromotes.ok hbefore hrun
  exact ⟨answer, s, hrun, hstatus, hpost⟩

/-- The command attaches HEAD, and others promote after the drift check. -/
def attaching : Environment (List String) (Option String × Head (List String)) where
  meanwhile n r := if n = 11 then "x" :: r else r
  fails _ := false
  locked _ := false
  run _ w _ := ((w.1, .onCanonical), 0, false)

theorem attaching_integrated : (answered (@integrate _ _ _ textGit.logged attaching.logged
    unmeasured asciiRuntime _ _ oneCommand atA)).map (fun answer => (answer.status,
      answer.previousVersion, answer.candidateRevision.map textGit.parents)) =
    some (.integrated, ["a"], some [["x", "a"]]) := by
  decide +kernel

theorem attached_overtaken :
    ¬@Triple IntegrationError _ _ (fun s => s = atA)
      (@integrate _ _ _ textGit.logged attaching.logged unmeasured asciiRuntime _ _ oneCommand)
      (PromotesValidated textGit oneCommand) (fun s => s.moves = []) := by
  intro h
  obtain ⟨answer, hanswer, hfields⟩ := Option.map_eq_some_iff.mp attaching_integrated
  obtain ⟨s, hrun⟩ := answered_ok hanswer
  have hpost := h.ok rfl hrun
  obtain ⟨hstatus, hfields⟩ := Prod.mk.inj hfields
  obtain ⟨hprevious, hparents⟩ := Prod.mk.inj hfields
  rw [PromotesValidated, if_pos hstatus] at hpost
  obtain ⟨candidate, granted, salvage, entries, hpromoted⟩ := hpost
  rw [hpromoted.landed.candidateRevision, Option.map_some, hpromoted.landed.parents,
    hprevious] at hparents
  exact absurd hparents (by decide)

end AgenticGit.Integration
