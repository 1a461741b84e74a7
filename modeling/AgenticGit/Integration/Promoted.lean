import AgenticGit.Integration.Integrate

/- What an integration promotes (`integration-service/src/index.ts`).

   As long as HEAD of the workspace is not attached to the canonical branch, no step but
   the promotion moves it (`At`). The index is the patched tree when the candidate's tree
   is written, the drift check holds the commands to that tree, and the commit is made of
   it.

   What is proved:
     1. `salvage_at` — the trials in the workspace answer as a function of the patch.
     2. `integrate_promotes` — **what is promoted is the granted list applied as one**, with
        the rest handed back, and any other answer promotes nothing.
     3. `salvage_conserves` — with it, no hunk of the changeset is lost or changed exactly
        when the parts of the divided files can be read back. -/
namespace AgenticGit.Integration
open AgenticGit.Runtime AgenticGit.Shared AgenticGit.Repository AgenticGit.Effects
open AgenticGit.Coordinator (IntegrationStatus sortByLocale)

variable {Rev Tree W : Type} {git : Git Rev Tree W} {env : Environment Rev W}
  {options : Options Rev}

/-! ## Steps that leave canonical alone -/

def Environment.Keeps (env : Environment Rev W) (c : Rev → Prop) : Prop :=
  ∀ n r, c r → c (env.meanwhile n r)

def Environment.Leaves (env : Environment Rev W) (p : W → Prop) : Prop :=
  ∀ n w command, p w → p (env.run n w command).1

theorem Environment.leaves_true (env : Environment Rev W) : env.Leaves fun _ => True :=
  fun _ _ _ _ => trivial

/-- Nothing was moved, HEAD is off the canonical branch, and canonical and the worktree are
as said. -/
structure At (git : Git Rev Tree W) (c : Rev → Prop) (p : W → Prop) (s : State Rev W) : Prop where
  off : (git.head s.worktree).attached = false
  still : s.moves = []
  canonical : c s.canonical
  worktree : p s.worktree

theorem At.imp {c : Rev → Prop} {p q : W → Prop} {s : State Rev W} (h : At git c p s)
    (hpq : ∀ w, p w → q w) : At git c q s := ⟨h.off, h.still, h.canonical, hpq _ h.worktree⟩

def State.tick (env : Environment Rev W) (s : State Rev W) : State Rev W :=
  { s with time := s.time + 1, canonical := env.meanwhile s.time s.canonical }

theorem await_tick {P Q E : State Rev W → Prop} (hQ : ∀ s, P s → Q (s.tick env))
    (hE : ∀ s, P s → env.fails s.time = true → E (s.tick env)) :
    Triple P (await env) (fun _ => Q) E := by
  refine triple_bind triple_get fun s => ?_
  refine triple_bind (R := fun _ t => t = s.tick env ∧ P s) (triple_set ?_) fun _ => ?_
  · rintro t ⟨rfl, hs⟩
    exact ⟨rfl, hs⟩
  · refine triple_ite (fun hfails => triple_throw _ ?_) fun _ => triple_pure ?_
    · rintro t ⟨rfl, hs⟩
      exact hE s hs hfails
    · rintro t ⟨rfl, hs⟩
      exact hQ s hs

theorem await_keeps {P E : State Rev W → Prop} (hP : ∀ s, P s → P (s.tick env))
    (hE : ∀ s, P s → E s) : Triple P (await env) (fun _ => P) E :=
  await_tick hP fun s hs _ => hE _ (hP s hs)

section Steps

variable {E : State Rev W → Prop} (hE : ∀ s : State Rev W, s.moves = [] → E s)
  {c : Rev → Prop} (hc : env.Keeps c) {p : W → Prop}

include hE hc

theorem await_at : Triple (At git c p) (await env) (fun _ => At git c p) E :=
  await_keeps (fun _ hs => ⟨hs.off, hs.still, hc _ _ hs.canonical, hs.worktree⟩)
    fun s hs => hE s hs.still

omit hE hc in
theorem worktree_at {q : W → Prop} {f : W → W}
    (h : ∀ w, (git.head w).attached = false → p w →
      (git.head (f w)).attached = false ∧ q (f w)) :
    Triple (At git c p) (modify fun s => { s with worktree := f s.worktree } : M Rev W Unit)
      (fun _ => At git c q) E :=
  triple_modify fun s hs =>
    ⟨(h s.worktree hs.off hs.worktree).1, hs.still, hs.canonical,
      (h s.worktree hs.off hs.worktree).2⟩

theorem resetHard_at (revision : Rev) :
    Triple (At git c p) (resetHard git env revision)
      (fun _ => At git c fun w => ∃ w₀, w = git.reset w₀ revision) E := by
  refine triple_bind (await_at hE hc) fun _ => triple_modify fun s hs => ?_
  have hfollow : s.follow git revision = s := by
    rw [State.follow, if_neg (by rw [hs.off]; decide)]
  refine ⟨?_, ?_, ?_, s.worktree, rfl⟩
  · have hhead := git.head_reset s.worktree revision
    rw [Head.move, if_neg (by rw [hs.off]; decide)] at hhead
    rw [hhead]
    rfl
  · rw [hfollow]
    exact hs.still
  · rw [hfollow]
    exact hs.canonical

def Pristine (git : Git Rev Tree W) (revision : Rev) (w : W) : Prop :=
  ∃ w₀, w = git.clean (git.reset w₀ revision)

omit hE hc in
theorem Pristine.index {revision : Rev} {w : W} (h : Pristine git revision w) :
    git.index w = some (git.tree revision) := by
  obtain ⟨w₀, rfl⟩ := h
  rw [git.index_clean, git.index_reset]

theorem resetWorkspace_at (revision : Rev) :
    Triple (At git c p) (resetWorkspace git env revision)
      (fun _ => At git c (Pristine git revision)) E := by
  refine triple_bind (resetHard_at hE hc revision) fun _ => ?_
  refine triple_bind (await_at hE hc) fun _ => worktree_at ?_
  rintro w hoff ⟨w₀, rfl⟩
  exact ⟨by rw [git.head_clean]; exact hoff, w₀, rfl⟩

theorem applyPatch_at (patchText : String) :
    Triple (At git c p) (applyPatch git env patchText)
      (fun applied => At git c fun w =>
        ∃ w₀, p w₀ ∧ applied = git.apply w₀ patchText ∧ w = applied.worktree) E := by
  refine triple_bind (await_at hE hc) fun _ => triple_bind triple_get fun s => ?_
  refine triple_bind (R := fun _ => At git c fun w => ∃ w₀, p w₀ ∧
    git.apply s.worktree patchText = git.apply w₀ patchText ∧
    w = (git.apply s.worktree patchText).worktree) (triple_modify ?_) fun _ =>
      triple_pure fun _ ht => ht
  rintro t ⟨rfl, hs⟩
  exact ⟨by rw [git.head_apply]; exact hs.off, hs.still, hs.canonical, s.worktree, hs.worktree, rfl,
    rfl⟩

theorem appliesCleanly_at (revision : Rev) (patchText : String) :
    Triple (At git c (Pristine git revision)) (appliesCleanly git env revision patchText)
      (fun clean s => clean = git.accepts revision patchText ∧
        At git c (Pristine git revision) s) E := by
  refine triple_bind (applyPatch_at hE hc patchText) fun applied => ?_
  intro s hs
  obtain ⟨w₀, ⟨w₁, rfl⟩, happlied, -⟩ := hs.worktree
  have hclean : applied.clean = git.accepts revision patchText := by
    rw [happlied, git.apply_pristine]
  refine triple_bind (resetWorkspace_at hE hc revision) (fun _ => triple_pure fun t ht => ?_) s hs
  exact ⟨hclean, ht⟩

theorem writeTree_at :
    Triple (At git c p) (writeTree git env)
      (fun tree => At git c fun w => p w ∧ git.index w = some tree) E := by
  refine triple_bind (await_at hE hc) fun _ => triple_bind triple_get fun s => ?_
  rintro t ⟨rfl, hs⟩
  dsimp only
  cases hindex : git.index s.worktree with
  | none => exact hE _ hs.still
  | some tree => exact ⟨hs.off, hs.still, hs.canonical, hs.worktree, hindex⟩

theorem revParseHead_at :
    Triple (At git c p) (revParseHead git env)
      (fun revision => At git c fun w => p w ∧ git.head w = .detached revision) E := by
  refine triple_bind (await_at hE hc) fun _ => triple_bind triple_get fun s => ?_
  rintro t ⟨rfl, hs⟩
  have hoff := hs.off
  dsimp only
  cases hhead : git.head s.worktree with
  | detached revision => exact ⟨hs.off, hs.still, hs.canonical, hs.worktree, hhead⟩
  | onCanonical =>
    rw [hhead] at hoff
    cases hoff

theorem runValidationCommand_from (hhead : env.KeepsHead git) (command : ValidationCommand) :
    Triple (At git c p) (runValidationCommand env command)
      (fun result => At git c fun w => ∃ n w₀, p w₀ ∧ w = (env.run n w₀ command).1 ∧
        result.exitCode = (env.run n w₀ command).2.1) E := by
  refine triple_bind (await_at hE hc) fun _ => triple_bind triple_get fun s => ?_
  refine triple_bind (R := fun _ => At git c fun w => ∃ n w₀, p w₀ ∧
    w = (env.run n w₀ command).1 ∧
    (env.run s.time s.worktree command).2.1 = (env.run n w₀ command).2.1) (triple_modify ?_)
      fun _ => triple_pure fun _ ht => ht
  rintro t ⟨rfl, hs⟩
  exact ⟨hhead _ _ _ hs.off, hs.still, hs.canonical, _, _, hs.worktree, rfl, rfl⟩

theorem runValidationCommand_at (hhead : env.KeepsHead git) (hp : env.Leaves p)
    (command : ValidationCommand) :
    Triple (At git c p) (runValidationCommand env command) (fun _ => At git c p) E := by
  refine (runValidationCommand_from hE hc hhead command).post fun _ s hs => hs.imp ?_
  rintro w ⟨n, w₀, hw, rfl, -⟩
  exact hp n w₀ command hw

/-! ## The stages before the commit -/

theorem sortHunks_at (revision : Rev) (parsed : ParsedPatch) (hunks : List ParsedHunk) :
    Triple (At git c (Pristine git revision))
      (sortHunks (appliesCleanly git env revision) parsed hunks)
      (fun sides s => sides = @sortHunks Id _ (git.accepts revision) parsed hunks ∧
        At git c (Pristine git revision) s) E := by
  induction hunks with
  | nil => exact triple_pure fun s hs => ⟨rfl, hs⟩
  | cons hunk hunks ih =>
    refine triple_bind (appliesCleanly_at hE hc revision _) fun clean => triple_assume ?_
    rintro rfl
    refine triple_bind ih fun sides => triple_assume ?_
    rintro rfl
    exact triple_pure fun s hs => ⟨rfl, hs⟩

theorem salvageFile_at (revision : Rev) (filePatch : FilePatch) :
    Triple (At git c (Pristine git revision))
      (salvageFile (appliesCleanly git env revision) filePatch)
      (fun outcome s => outcome = fileOutcome (git.accepts revision) filePatch ∧
        At git c (Pristine git revision) s) E := by
  refine triple_bind (appliesCleanly_at hE hc revision _) fun clean => triple_assume ?_
  intro hclean
  refine triple_ite (fun htrue => triple_pure fun s hs => ⟨?_, hs⟩) fun hfalse => ?_
  · rw [fileOutcome_clean (hclean ▸ htrue)]
  · have hfalse : git.accepts revision filePatch.patch = false := by
      rw [← hclean]
      exact Bool.eq_false_iff.mpr hfalse
    cases hparsed : parseUnifiedPatch filePatch.patch with
    | none => exact triple_pure fun s hs => ⟨(fileOutcome_none hfalse hparsed).symm, hs⟩
    | some parsed =>
      rw [fileOutcome_some hfalse hparsed]
      refine triple_ite (fun hfew => triple_pure fun s hs => ⟨?_, hs⟩) fun hmany => ?_
      · rw [if_pos hfew]
      · rw [if_neg hmany]
        refine triple_bind (sortHunks_at hE hc revision parsed parsed.hunks) fun sides =>
          triple_assume ?_
        rw [sortHunks_id]
        rintro rfl
        refine triple_ite (fun hnone => triple_pure fun s hs => ⟨?_, hs⟩)
          fun hboth => triple_pure fun s hs => ⟨?_, hs⟩
        · rw [if_pos hnone]
        · rw [if_neg hboth]

/-- **The trials in the workspace answer as a function of the patch.** -/
theorem salvage_at (revision : Rev) (patches : List FilePatch) :
    Triple (At git c (Pristine git revision))
      (salvage (appliesCleanly git env revision) patches)
      (fun outcome s => outcome = outcomeOf (git.accepts revision) patches ∧
        At git c (Pristine git revision) s) E := by
  induction patches with
  | nil => exact triple_pure fun s hs => ⟨rfl, hs⟩
  | cons filePatch patches ih =>
    refine triple_bind (salvageFile_at hE hc revision filePatch) fun first => triple_assume ?_
    rintro rfl
    refine triple_bind ih fun rest => triple_assume ?_
    rintro rfl
    exact triple_pure fun s hs => ⟨(outcomeOf_cons _ _ _).symm, hs⟩

def Holding (git : Git Rev Tree W) (tree : Tree) (w : W) : Prop := git.index w = some tree

/-- What holds of a worktree that is built, reset or patched. -/
structure Prepared (git : Git Rev Tree W) (q : W → Prop) : Prop where
  create : ∀ r, q (git.create r)
  reset : ∀ w r, q (git.reset w r)
  clean : ∀ w, q w → q (git.clean w)
  apply : ∀ w p, q w → (git.apply w p).clean = true → q (git.apply w p).worktree

/-- The index is the tree, and the worktree as it was prepared. -/
def Ready (git : Git Rev Tree W) (q : W → Prop) (tree : Tree) (w : W) : Prop :=
  Holding git tree w ∧ q w

omit hE hc in
theorem prepared_true : Prepared git fun _ => True :=
  ⟨fun _ => trivial, fun _ _ => trivial, fun _ _ => trivial, fun _ _ _ _ => trivial⟩

theorem runAll_at (hhead : env.KeepsHead git) (hp : env.Leaves p)
    (commands : List ValidationCommand) :
    Triple (At git c p) (runAll env commands) (fun _ => At git c p) E := by
  induction commands with
  | nil => exact triple_pure fun s hs => hs
  | cons command commands ih =>
    refine triple_bind (runValidationCommand_at hE hc hhead hp command) fun _ => ?_
    exact triple_bind ih fun _ => triple_pure fun s hs => hs

theorem collectBaseline_at {q : W → Prop} (hq : Prepared git q) (hhead : env.KeepsHead git)
    (revision : Rev) (commands : List ValidationCommand)
    (affected : Option (ValidationCommand × List String)) :
    Triple (At git c (Ready git q (git.tree revision)))
      (collectBaseline git env options revision commands affected)
      (fun _ => At git c (Ready git q (git.tree revision))) E := by
  unfold collectBaseline
  refine triple_ite (fun _ => triple_pure fun s hs => hs) fun _ => ?_
  dsimp only
  split
  · exact triple_pure fun s hs => hs
  · refine triple_bind ((runAll_at hE hc hhead env.leaves_true _).pre fun s hs =>
      hs.imp fun _ _ => trivial) fun _ => ?_
    refine triple_bind (resetHard_at hE hc revision) fun _ => triple_pure fun s hs => hs.imp ?_
    rintro w ⟨w₀, rfl⟩
    exact ⟨git.index_reset w₀ revision, hq.reset w₀ revision⟩

theorem reproduceBefore_at {q : W → Prop} (hq : Prepared git q) (hhead : env.KeepsHead git)
    (revision : Rev) (test : Option ReproductionTest) :
    Triple (At git c (Ready git q (git.tree revision))) (reproduceBefore git env revision test)
      (fun _ => At git c (Ready git q (git.tree revision))) E := by
  cases test with
  | none => exact triple_pure fun s hs => hs
  | some test =>
    refine triple_bind (runValidationCommand_from hE hc hhead _) fun _ => ?_
    refine triple_bind (resetHard_at hE hc revision) fun _ => triple_pure fun s hs => hs.imp ?_
    rintro w ⟨w₀, rfl⟩
    exact ⟨git.index_reset w₀ revision, hq.reset w₀ revision⟩

def Granted (git : Git Rev Tree W) (input : IntegrateChangeSetInput) (previousVersion : Rev)
    (granted : List FilePatch) : Option SalvageOutcome → Prop
  | none => granted = input.changeSet.patches
  | some outcome =>
    outcome = outcomeOf (git.accepts previousVersion) input.changeSet.patches ∧
      granted = outcome.granted ∧ git.accepts previousVersion (combinedPatch granted) = true

/-- The index is the previous tree with the granted patches applied as one. -/
def Candidate (git : Git Rev Tree W) (input : IntegrateChangeSetInput) (previousVersion : Rev)
    (salvage : Option SalvageOutcome) (tree : Tree) : Prop :=
  ∃ granted, Granted git input previousVersion granted salvage ∧
    tree = git.patched (git.tree previousVersion) (combinedPatch granted)

theorem applyChangeSet_at {q : W → Prop} (hq : Prepared git q) (input : IntegrateChangeSetInput)
    (previousVersion : Rev) :
    Triple (At git c (Ready git q (git.tree previousVersion)))
      (applyChangeSet git env input previousVersion)
      (fun answer s => match answer with
        | .error result => result.status ≠ .integrated ∧ At git c (fun _ => True) s
        | .ok salvage => At git c (fun w => ∃ tree, Ready git q tree w ∧
            Candidate git input previousVersion salvage tree) s) E := by
  have hrefused : ∀ {status : IntegrationStatus} {explanation : String} {r : W → Prop},
      status ≠ .integrated → ∀ s : State Rev W, At git c r s →
      (input.answer status previousVersion [] explanation : IntegrationResult Rev).status ≠
        .integrated ∧ At git c (fun _ => True) s :=
    fun hstatus s hs => ⟨hstatus, hs.imp fun _ _ => trivial⟩
  refine triple_bind (applyPatch_at hE hc _) fun applied => ?_
  refine triple_ite (fun hclean => triple_pure fun s hs => hs.imp ?_) fun _ => ?_
  · rintro w ⟨w₀, ⟨hindex, hw⟩, rfl, rfl⟩
    exact ⟨_, ⟨git.index_apply _ _ _ hindex hclean, hq.apply _ _ hw hclean⟩, _, rfl, rfl⟩
  · refine triple_bind (await_at hE hc) fun _ => triple_bind triple_get fun now => ?_
    refine Triple.pre ?_ (fun s hs => hs.2)
    refine triple_ite (fun _ => triple_pure (hrefused (by decide))) fun _ => ?_
    refine triple_ite (fun _ => ?_) fun _ => triple_pure (hrefused (by decide))
    refine triple_bind (resetWorkspace_at hE hc previousVersion) fun _ => ?_
    refine triple_bind (salvage_at hE hc previousVersion _) fun outcome => triple_assume ?_
    intro houtcome
    refine triple_ite (fun _ => triple_pure (hrefused (by decide))) fun _ => ?_
    refine triple_bind (applyPatch_at hE hc _) fun reapplied => ?_
    refine triple_ite (fun hclean => triple_pure fun s hs => hs.imp ?_) fun _ => ?_
    · rintro w ⟨w₀, hpristine, rfl, rfl⟩
      have haccepts := hclean
      have hindex := hpristine.index
      obtain ⟨w₁, rfl⟩ := hpristine
      rw [git.apply_pristine] at haccepts
      have hw := hq.clean _ (hq.reset w₁ previousVersion)
      exact ⟨_, ⟨git.index_apply _ _ _ hindex hclean, hq.apply _ _ hw hclean⟩, _,
        ⟨houtcome, rfl, haccepts⟩, rfl⟩
    · refine triple_bind (resetWorkspace_at hE hc previousVersion) fun _ => ?_
      exact triple_pure (hrefused (by decide))

/-! ## Validation -/

theorem validate_at (hhead : env.KeepsHead git) (hp : env.Leaves p)
    (commands : List ValidationCommand) :
    Triple (At git c p) (validate env commands) (fun _ => At git c p) E := by
  induction commands with
  | nil => exact triple_pure fun s hs => hs
  | cons command commands ih =>
    refine triple_bind (runValidationCommand_at hE hc hhead hp command) fun _ => ?_
    refine triple_ite (fun _ => triple_pure fun s hs => hs) fun _ => ?_
    exact triple_bind ih fun _ => triple_pure fun s hs => hs

theorem gradeCommands_at (hhead : env.KeepsHead git) (hp : env.Leaves p)
    (commands : List ValidationCommand) :
    Triple (At git c p) (gradeCommands env commands) (fun _ => At git c p) E := by
  induction commands with
  | nil => exact triple_pure fun s hs => hs
  | cons command commands ih =>
    refine triple_bind (runValidationCommand_at hE hc hhead hp command) fun _ => ?_
    refine triple_ite (fun _ => triple_pure fun s hs => hs) fun _ => ?_
    exact triple_bind ih fun _ => triple_pure fun s hs => hs

/-- Neither setting the graders aside nor putting them back changes what is said of the
worktree. -/
structure Regraded (git : Git Rev Tree W) (previousVersion : Rev) (graderPaths : List String)
    (p : W → Prop) : Prop where
  restore : ∀ w w', p w → git.restore w previousVersion graderPaths = some w' → p w'
  checkoutIndex : ∀ w, p w → p (git.checkoutIndex w graderPaths)

theorem gradeWithoutEdits_at [DecidableEq Tree] (hhead : env.KeepsHead git) (hp : env.Leaves p)
    {previousVersion : Rev} {graderPaths : List String}
    (hregraded : Regraded git previousVersion graderPaths p) (commands : List ValidationCommand) :
    Triple (At git c p) (gradeWithoutEdits git env previousVersion graderPaths commands)
      (fun _ => At git c p) E := by
  refine triple_bind (writeTree_at hE hc) fun applied => triple_bind (await_at hE hc) fun _ => ?_
  refine triple_bind triple_get fun now => ?_
  dsimp only
  cases hrestore : git.restore now.worktree previousVersion graderPaths with
  | none => exact triple_pure fun s hs => hs.2.imp fun _ hw => hw.1
  | some worktree =>
    refine triple_bind (R := fun _ => At git c p) (triple_modify ?_) fun _ => ?_
    · rintro s ⟨rfl, hs⟩
      exact ⟨by rw [git.head_restore _ _ _ _ hrestore]; exact hs.off, hs.still, hs.canonical,
        hregraded.restore _ _ hs.worktree.1 hrestore⟩
    · refine triple_bind (gradeCommands_at hE hc hhead hp commands) fun graded => ?_
      refine triple_bind (await_at hE hc) fun _ => ?_
      refine triple_bind (R := fun _ => At git c p) (worktree_at
        (f := fun w => git.checkoutIndex w graderPaths) ?_) fun _ => ?_
      · intro w hoff hw
        exact ⟨by rw [git.head_checkoutIndex]; exact hoff, hregraded.checkoutIndex w hw⟩
      · refine triple_bind (writeTree_at hE hc) fun restored => ?_
        exact triple_ite (fun _ => triple_throw _ fun s hs => hE s hs.still)
          fun _ => triple_pure fun s hs => hs.imp fun _ hw => hw.1

theorem reproduceAfter_at (hhead : env.KeepsHead git) (hp : env.Leaves p)
    (test : Option ReproductionTest) (before : Option CommandResult) :
    Triple (At git c p) (reproduceAfter env test before) (fun _ => At git c p) E := by
  unfold reproduceAfter
  split
  · exact triple_bind (runValidationCommand_at hE hc hhead hp _) fun _ =>
      triple_pure fun s hs => hs
  · exact triple_pure fun s hs => hs

theorem gradeEdits_at [DecidableEq Tree] (hhead : env.KeepsHead git) (hp : env.Leaves p)
    {previousVersion : Rev} {graderPaths : List String}
    (hregraded : Regraded git previousVersion graderPaths p) (commands : List ValidationCommand) :
    Triple (At git c p) (gradeEdits git env previousVersion graderPaths commands)
      (fun _ => At git c p) E := by
  refine triple_ite (fun _ => ?_) fun _ => triple_pure fun s hs => hs
  exact triple_bind (gradeWithoutEdits_at hE hc hhead hp hregraded _) fun _ =>
    triple_pure fun s hs => hs

/-! ## The promotion -/

/-- Nothing drifted: the index is the candidate's tree, the files are as in the index, and
HEAD is the previous version. -/
theorem drifted_at [DecidableEq Rev] [DecidableEq Tree] (candidateTree : Tree)
    (previousVersion : Rev) :
    Triple (At git c p) (drifted git env candidateTree previousVersion)
      (fun drift => At git c fun w => p w ∧ (drift = false →
        (Holding git candidateTree w ∧ git.head w = .detached previousVersion) ∧
          git.changed w = [])) E := by
  refine triple_bind (writeTree_at hE hc) fun validatedTree => ?_
  refine triple_bind (revParseHead_at hE hc) fun validatedHead => ?_
  refine triple_bind (await_at hE hc) fun _ => triple_bind triple_get fun now => ?_
  refine Triple.pre (P := At git c fun w => ((p w ∧ git.index w = some validatedTree) ∧
    git.head w = .detached validatedHead) ∧ git.changed w = git.changed now.worktree) ?_ ?_
  · refine triple_bind (await_at hE hc) fun _ => triple_bind triple_get fun _ => ?_
    refine Triple.pre ?_ (fun s hs => hs.2)
    refine triple_pure fun s hs => hs.imp ?_
    rintro w ⟨⟨⟨hw, hindex⟩, hhead⟩, hchanged⟩
    refine ⟨hw, fun hdrift => ?_⟩
    have hnone := of_decide_eq_false hdrift
    rw [not_or, not_or, not_or, not_not, not_not] at hnone
    obtain ⟨rfl, rfl, hclean, -⟩ := hnone
    refine ⟨⟨hindex, hhead⟩, hchanged.trans (List.eq_nil_of_length_eq_zero ?_)⟩
    omega
  · rintro s ⟨rfl, hs⟩
    exact ⟨hs.off, hs.still, hs.canonical, hs.worktree, rfl⟩

theorem commitIndex_at [DecidableEq Tree] {q : W → Prop}
    (hq : ∀ w revision, q w → q (git.committed w revision)) (message : CommitMessage)
    (tree : Tree) (previousVersion : Rev) :
    Triple (At git c fun w => q w ∧ Holding git tree w ∧ git.head w = .detached previousVersion)
      (commitIndex git env message)
      (fun candidate => At git c fun w => q w ∧ ∀ revision, candidate = some revision →
        revision = git.commit previousVersion tree message) E := by
  refine triple_bind (writeTree_at hE hc) fun staged => ?_
  refine triple_bind (revParseHead_at hE hc) fun parent => ?_
  refine triple_ite (fun _ => triple_pure fun s hs => hs.imp ?_) fun _ => ?_
  · rintro w ⟨⟨⟨hw, -⟩, -⟩, -⟩
    exact ⟨hw, fun revision hnone => by cases hnone⟩
  · refine triple_bind (await_at hE hc) fun _ => triple_bind triple_get fun now => ?_
    dsimp only
    cases hindex : git.index now.worktree with
    | none => exact triple_throw _ fun s hs => hE s hs.2.still
    | some staged =>
      refine triple_bind (R := fun _ => At git c fun w => q w ∧ git.head w =
        .detached (git.commit previousVersion tree message)) (triple_modify ?_) fun _ => ?_
      · rintro s ⟨rfl, hs⟩
        obtain ⟨⟨⟨hw, hholding, hhead⟩, -⟩, -⟩ := hs.worktree
        obtain rfl := Option.some.inj (hindex.symm.trans hholding)
        have hfollow : ∀ revision, now.follow git revision = now := by
          intro revision
          rw [State.follow, if_neg (by rw [hs.off]; decide)]
        have hcommitted := git.head_committed now.worktree (git.commit previousVersion staged message)
        rw [Head.move, if_neg (by rw [hs.off]; decide)] at hcommitted
        simp only [hhead, hfollow]
        exact ⟨by rw [hcommitted]; rfl, hs.still, hs.canonical, hq _ _ hw, hcommitted⟩
      · refine triple_bind (revParseHead_at hE hc) fun revision => triple_pure fun s hs => hs.imp ?_
        rintro w ⟨⟨hw, hcommit⟩, hhead⟩
        refine ⟨hw, fun candidate hcandidate => ?_⟩
        obtain rfl := Option.some.inj hcandidate
        exact Head.detached.inj (hhead.symm.trans hcommit)

end Steps

/-- What a promotion leaves: it moved canonical to the candidate, or found it there, or did
nothing. -/
inductive Promotes (candidate expected : Rev) : Bool → State Rev W → Prop where
  | moved {s : State Rev W} (h : s.moves = [⟨expected, candidate⟩]) :
      Promotes candidate expected true s
  | found {s : State Rev W} (h : s.moves = []) (hfound : candidate ∈ s.found) :
      Promotes candidate expected true s
  | refused {s : State Rev W} (h : s.moves = []) : Promotes candidate expected false s

/-- What a call may have done to canonical when it throws. -/
def AtMost (candidate expected : Rev) (s : State Rev W) : Prop :=
  s.moves = [] ∨ s.moves = [⟨expected, candidate⟩]

theorem Promotes.atMost {candidate expected : Rev} {promoted : Bool} {s : State Rev W}
    (h : Promotes candidate expected promoted s) : AtMost candidate expected s := by
  cases h with
  | moved h => exact .inr h
  | found h => exact .inl h
  | refused h => exact .inl h

/-- What a promotion leaves of the state it was made in. -/
structure Promoted (c : Rev → Prop) (p : W → Prop) (candidate expected : Rev) (promoted : Bool)
    (s : State Rev W) : Prop where
  promotes : Promotes candidate expected promoted s
  /-- Canonical is at the candidate by this call, or as it is said to be. -/
  ours : promoted = true → s.moves = [] → c candidate
  worktree : p s.worktree

theorem promote_at [DecidableEq Rev] {c : Rev → Prop} (hc : env.Keeps c) (candidate expected : Rev)
    {p : W → Prop} :
    Triple (At git c p) (promote env candidate expected : M Rev W Bool)
      (fun promoted s => Promoted c p candidate expected promoted s ∧
        (s.moves ≠ [] → env.locked s.time = false)) (fun s => s.moves = []) := by
  have hE : ∀ s : State Rev W, s.moves = [] → s.moves = [] := fun s hs => hs
  refine triple_bind (await_at hE hc) fun _ => triple_bind triple_get fun now => ?_
  refine triple_ite (fun hfree => ?_) fun _ => ?_
  · refine triple_bind (R := fun _ s => s.moves = [⟨expected, candidate⟩] ∧ p s.worktree ∧
      env.locked s.time = false) (triple_set ?_) fun _ =>
        triple_pure fun s hs => ⟨⟨.moved hs.1, ?_, hs.2.1⟩, fun _ => hs.2.2⟩
    · rintro s ⟨rfl, hs⟩
      rw [hs.still]
      exact ⟨rfl, hs.worktree, hfree.2⟩
    · intro _ hnone
      rw [hnone] at hs
      cases hs.1
  · refine Triple.pre ?_ (fun s hs => hs.2)
    refine triple_bind (R := fun current s => At git c p s ∧ c current) ?_ fun current => ?_
    · refine triple_bind (await_at hE hc) fun _ => triple_bind triple_get fun now => ?_
      refine triple_pure ?_
      rintro s ⟨rfl, hs⟩
      exact ⟨hs, hs.canonical⟩
    · refine triple_bind (R := fun _ s => (At git c p s ∧ c current) ∧ current ∈ s.found)
        (triple_modify ?_) fun _ => ?_
      · rintro s ⟨hs, hcurrent⟩
        exact ⟨⟨⟨hs.off, hs.still, hs.canonical, hs.worktree⟩, hcurrent⟩,
          List.mem_append_right _ (List.mem_singleton.mpr rfl)⟩
      · refine triple_ite (fun heq => triple_pure fun s hs => ?_) fun _ => ?_
        · exact ⟨⟨.found hs.1.1.still (heq ▸ hs.2), fun _ _ => heq ▸ hs.1.2, hs.1.1.worktree⟩,
            fun hmoved => absurd hs.1.1.still hmoved⟩
        · refine triple_ite (fun _ => triple_pure fun s hs => ?_)
            fun _ => triple_throw _ fun s hs => hs.1.1.still
          exact ⟨⟨.refused hs.1.1.still, fun h => Bool.noConfusion h, hs.1.1.worktree⟩,
            fun hmoved => absurd hs.1.1.still hmoved⟩

theorem Promotes.clock {candidate expected : Rev} {promoted : Bool} {s : State Rev W}
    (h : Promotes candidate expected promoted s) (time : Nat) (canonical : Rev) :
    Promotes candidate expected promoted { s with time, canonical } := by
  cases h with
  | moved h => exact .moved h
  | found h hfound => exact .found h hfound
  | refused h => exact .refused h

theorem promoted_canonical {c : Rev → Prop} {p : W → Prop} {candidate expected : Rev}
    {promoted : Bool} {E : State Rev W → Prop}
    (hE : ∀ s, Promoted c p candidate expected promoted s →
      (s.moves ≠ [] → env.locked s.time = false) → env.fails s.time = true → E (s.tick env)) :
    Triple (fun s => Promoted c p candidate expected promoted s ∧
        (s.moves ≠ [] → env.locked s.time = false))
      (getCanonicalVersion env : M Rev W Rev)
      (fun _ => Promoted c p candidate expected promoted) E := by
  refine triple_bind (await_tick (Q := Promoted c p candidate expected promoted)
    (fun s hs => ⟨hs.1.promotes.clock _ _, hs.1.ours, hs.1.worktree⟩)
    fun s hs hfails => hE s hs.1 hs.2 hfails) fun _ => ?_
  exact triple_bind triple_get fun _ => triple_pure fun s hs => hs.2

/-- What is promoted of a changeset, and what is answered of the rest. -/
structure Landed (git : Git Rev Tree W) (input : IntegrateChangeSetInput)
    (answer : IntegrationResult Rev) (candidate : Rev) (granted : List FilePatch)
    (salvage : Option SalvageOutcome) : Prop where
  candidateRevision : answer.candidateRevision = some candidate
  parents : git.parents candidate = [answer.previousVersion]
  /-- The granted list, applied as one. -/
  tree : git.tree candidate =
    git.patched (git.tree answer.previousVersion) (combinedPatch granted)
  granted : Granted git input answer.previousVersion granted salvage
  deferred : answer.salvagedDeferred = salvage.map SalvageOutcome.deferred
  divided : answer.salvagedDividedFiles = salvage.map SalvageOutcome.divided

/-- What is promoted is the granted list; any other answer promotes nothing. -/
def PromotesGranted (git : Git Rev Tree W) (input : IntegrateChangeSetInput)
    (answer : IntegrationResult Rev) (s : State Rev W) : Prop :=
  if answer.status = .integrated then
    ∃ candidate granted salvage, Landed git input answer candidate granted salvage ∧
      Promotes candidate answer.previousVersion true s
  else s.moves = []

theorem promotesGranted_other {input : IntegrateChangeSetInput} {answer : IntegrationResult Rev}
    (status : IntegrationStatus) (hanswer : answer.status = status)
    (hstatus : status ≠ .integrated) {s : State Rev W} (hs : s.moves = []) :
    PromotesGranted git input answer s := by
  rw [PromotesGranted, if_neg (by rw [hanswer]; exact hstatus)]
  exact hs

theorem promotesGranted_landed {input : IntegrateChangeSetInput} {answer : IntegrationResult Rev}
    (hanswer : answer.status = .integrated) {s : State Rev W} {candidate : Rev}
    {granted : List FilePatch} {salvage : Option SalvageOutcome}
    (hlanded : Landed git input answer candidate granted salvage)
    (hs : Promotes candidate answer.previousVersion true s) :
    PromotesGranted git input answer s := by
  rw [PromotesGranted, if_pos hanswer]
  exact ⟨candidate, granted, salvage, hlanded, hs⟩

/-- An exception leaves canonical where it was, or at a candidate of the changeset. -/
def ThrowsAfter (git : Git Rev Tree W) (input : IntegrateChangeSetInput) (s : State Rev W) :
    Prop :=
  s.moves = [] ∨ ∃ previousVersion candidate salvage, s.moves = [⟨previousVersion, candidate⟩] ∧
    Candidate git input previousVersion salvage (git.tree candidate)

/-- An answer that says the same of the promotion. -/
structure IntegrationResult.Restates (answer' answer : IntegrationResult Rev) : Prop where
  status : answer'.status = answer.status
  previousVersion : answer'.previousVersion = answer.previousVersion
  candidateRevision : answer'.candidateRevision = answer.candidateRevision
  validation : answer'.validation = answer.validation
  deferred : answer'.salvagedDeferred = answer.salvagedDeferred
  divided : answer'.salvagedDividedFiles = answer.salvagedDividedFiles

theorem PromotesGranted.restated {input : IntegrateChangeSetInput}
    {answer answer' : IntegrationResult Rev} {s : State Rev W}
    (h : PromotesGranted git input answer s) (hsame : answer'.Restates answer) :
    PromotesGranted git input answer' s := by
  unfold PromotesGranted at h ⊢
  rw [hsame.status]
  split
  · rename_i hintegrated
    rw [if_pos hintegrated] at h
    obtain ⟨candidate, granted, salvage, hlanded, hs⟩ := h
    refine ⟨candidate, granted, salvage, ⟨?_, ?_, ?_, ?_, ?_, ?_⟩, ?_⟩
    · rw [hsame.candidateRevision, hlanded.candidateRevision]
    · rw [hsame.previousVersion, hlanded.parents]
    · rw [hsame.previousVersion, hlanded.tree]
    · rw [hsame.previousVersion]
      exact hlanded.granted
    · rw [hsame.deferred, hlanded.deferred]
    · rw [hsame.divided, hlanded.divided]
    · rw [hsame.previousVersion]
      exact hs
  · rename_i hother
    rw [if_neg hother] at h
    exact h

theorem await_still {c : Rev → Prop} (hc : env.Keeps c) :
    Triple (fun s : State Rev W => s.moves = [] ∧ c s.canonical) (await env)
      (fun _ s => s.moves = [] ∧ c s.canonical) (fun s => s.moves = []) :=
  await_keeps (fun _ hs => ⟨hs.1, hc _ _ hs.2⟩) fun _ hs => hs.1

theorem PromotesGranted.clock {input : IntegrateChangeSetInput} {answer : IntegrationResult Rev}
    {s : State Rev W} (h : PromotesGranted git input answer s) (time : Nat) (canonical : Rev) :
    PromotesGranted git input answer { s with time, canonical } := by
  unfold PromotesGranted at h ⊢
  split
  · rename_i hintegrated
    rw [if_pos hintegrated] at h
    obtain ⟨candidate, granted, salvage, hlanded, hs⟩ := h
    exact ⟨candidate, granted, salvage, hlanded, hs.clock time canonical⟩
  · rename_i hother
    rw [if_neg hother] at h
    exact h

def declaredEntries (patches : List FilePatch) : Except PathError (List (String × FilePatchStatus)) :=
  patches.mapM fun filePatch => do
    return (← normalizeRepositoryPath filePatch.path, filePatch.status)

/-- The tree is of the granted patches, and touches what they declare. -/
structure AsDeclared [TextRuntime] (git : Git Rev Tree W) (input : IntegrateChangeSetInput)
    (previousVersion : Rev) (salvage : Option SalvageOutcome) (tree : Tree)
    (granted : List FilePatch) (entries : List (String × FilePatchStatus)) : Prop where
  grants : Granted git input previousVersion granted salvage
  patched : tree = git.patched (git.tree previousVersion) (combinedPatch granted)
  declared : declaredEntries granted = .ok entries
  applied : sortByLocale Prod.fst (git.nameStatus (git.tree previousVersion) tree) =
    sortByLocale Prod.fst entries

/-- What can be concluded of a call: of an answer that is not integrated that nothing was
moved, and nothing that the clock, others or an addition to the answer can change. -/
structure Concludes (F : IntegrationResult Rev → State Rev W → Prop)
    (E : State Rev W → Prop) : Prop where
  other : ∀ {answer s} status, answer.status = status → status ≠ .integrated → s.moves = [] →
    F answer s
  thrown : ∀ s, s.moves = [] → E s
  clock : ∀ answer s time canonical, F answer s → F answer { s with time, canonical }
  thrownClock : ∀ s time canonical, E s → E { s with time, canonical }
  restated : ∀ answer answer' s, answer'.Restates answer → F answer s → F answer' s

theorem promotesGranted_concludes (input : IntegrateChangeSetInput) :
    Concludes (PromotesGranted (W := W) git input) (ThrowsAfter git input) where
  other status hanswer hstatus hs := promotesGranted_other status hanswer hstatus hs
  thrown _ hs := .inl hs
  clock _ _ time canonical h := h.clock time canonical
  thrownClock _ _ _ h := h
  restated _ _ _ hsame h := h.restated hsame

section Stages

variable [DecidableEq Rev] [DecidableEq Tree] {F : IntegrationResult Rev → State Rev W → Prop}
  {E : State Rev W → Prop} {c : Rev → Prop}

def Made (git : Git Rev Tree W) (input : IntegrateChangeSetInput) (expected : Rev) (tree : Tree)
    (candidate : Rev) : Prop :=
  ∃ replaying salvage validation evidence reproduction baseline graderEdits,
    candidate = git.commit expected tree ⟨input.commitMessage, input.author,
      trailersOf input replaying salvage validation evidence reproduction baseline graderEdits⟩

omit [DecidableEq Rev] [DecidableEq Tree] in
theorem Made.parents {input : IntegrateChangeSetInput} {expected : Rev} {tree : Tree}
    {candidate : Rev} (h : Made git input expected tree candidate) :
    git.parents candidate = [expected] := by
  obtain ⟨_, _, _, _, _, _, _, rfl⟩ := h
  exact git.parents_commit _ _ _

omit [DecidableEq Rev] [DecidableEq Tree] in
theorem Made.tree {input : IntegrateChangeSetInput} {expected : Rev} {tree : Tree}
    {candidate : Rev} (h : Made git input expected tree candidate) : git.tree candidate = tree := by
  obtain ⟨_, _, _, _, _, _, _, rfl⟩ := h
  exact git.tree_commit _ _ _

/-- An integrated answer, and what it left. -/
structure Lands (git : Git Rev Tree W) (c : Rev → Prop) (q : W → Prop)
    (input : IntegrateChangeSetInput) (expected : Rev) (tree : Tree)
    (salvage : Option SalvageOutcome) (validation : List CommandResult) (answer : IntegrationResult Rev) (candidate : Rev) (s : State Rev W) : Prop where
  status : answer.status = .integrated
  previousVersion : answer.previousVersion = expected
  candidateRevision : answer.candidateRevision = some candidate
  validation : answer.validation = validation
  deferred : answer.salvagedDeferred = salvage.map SalvageOutcome.deferred
  divided : answer.salvagedDividedFiles = salvage.map SalvageOutcome.divided
  made : Made git input expected tree candidate
  promoted : Promoted c q candidate expected true s

theorem promoteCandidate_at (hF : Concludes F E) (hc : env.Keeps c) {p q : W → Prop}
    (input : IntegrateChangeSetInput) (previousVersion : Rev) (replaying : Bool)
    (salvage : Option SalvageOutcome) (candidateTree : Tree) (validation : List CommandResult)
    (baseline : Option ValidationBaseline) (reproduction : Option ReproductionAttestation)
    (graderEdits : Option GraderEditReport)
    (hcommitted : ∀ w revision, q w → q (git.committed w revision))
    (hdrift : ∀ w, p w → Holding git candidateTree w → git.changed w = [] → q w)
    (hlands : ∀ answer candidate s,
      Lands git c q input previousVersion candidateTree salvage validation answer candidate s →
      F answer s)
    (hthrown : ∀ candidate promoted s, Made git input previousVersion candidateTree candidate →
      Promoted c q candidate previousVersion promoted s →
      (s.moves ≠ [] → env.locked s.time = false) → env.fails s.time = true → E (s.tick env)) :
    Triple (At git c p)
      (promoteCandidate git env input previousVersion replaying salvage candidateTree validation
        baseline reproduction graderEdits) F E := by
  have hE := hF.thrown
  unfold promoteCandidate
  refine triple_bind (drifted_at hE hc candidateTree previousVersion) fun drift => ?_
  refine triple_ite (fun _ => triple_pure fun s hs =>
    hF.other .policyFailed rfl (by decide) hs.still)
    fun hnone => ?_
  refine Triple.pre (P := At git c fun w => q w ∧ Holding git candidateTree w ∧
    git.head w = .detached previousVersion) ?_ fun s hs => hs.imp fun w hw => ?_
  rotate_left
  · obtain ⟨hkept, hclean⟩ := hw.2 (Bool.eq_false_iff.mpr hnone)
    exact ⟨hdrift w hw.1 hkept.1 hclean, hkept⟩
  refine triple_bind (commitIndex_at hE hc hcommitted _ candidateTree previousVersion)
    fun candidate => ?_
  cases candidate with
  | none => exact triple_pure fun s hs => hF.other .empty rfl (by decide) hs.still
  | some candidateRevision =>
    refine Triple.pre (P := fun s =>
      Made git input previousVersion candidateTree candidateRevision ∧ At git c q s)
      (triple_assume fun hmade => ?_)
      fun s hs => ⟨⟨_, _, _, _, _, _, _, hs.worktree.2 _ rfl⟩, hs.imp fun _ hw => hw.1⟩
    refine triple_bind ((promote_at hc candidateRevision previousVersion).raise hE)
      fun promoted => ?_
    refine triple_bind (promoted_canonical fun s hs hlocked hfails =>
      hthrown _ promoted s hmade hs hlocked hfails) fun canonicalVersion => ?_
    refine triple_ite (fun hpromoted => triple_pure fun s hs => ?_)
      fun hrefused => triple_pure fun s hs => ?_
    · exact hlands _ candidateRevision s
        ⟨rfl, rfl, rfl, rfl, rfl, rfl, hmade, hpromoted ▸ hs⟩
    · refine hF.other .stale rfl (by decide) ?_
      cases hs.promotes with
      | moved => exact absurd rfl hrefused
      | found => exact absurd rfl hrefused
      | refused hs => exact hs

/-- What is concluded of the applied tree is concluded of the call. -/
def Concluded [TextRuntime] (git : Git Rev Tree W) (env : Environment Rev W)
    (options : Options Rev) (c : Rev → Prop) (q : W → Prop) (input : IntegrateChangeSetInput)
    (previousVersion : Rev) (F : IntegrationResult Rev → State Rev W → Prop)
    (E : State Rev W → Prop) : Prop :=
  ∀ replaying baseline reproductionBefore salvage tree granted entries,
    AsDeclared git input previousVersion salvage tree granted entries →
    Triple (At git c (Ready git q tree))
      (validateCandidate git env options input previousVersion replaying baseline
        reproductionBefore salvage
        (sortByLocale Prod.fst (git.nameStatus (git.tree previousVersion) tree))) F E

omit [DecidableEq Rev] [DecidableEq Tree] in
theorem effectiveEntries_granted {input : IntegrateChangeSetInput} {previousVersion : Rev}
    {declared entries : List (String × FilePatchStatus)} {salvage : Option SalvageOutcome}
    {granted : List FilePatch} (hdeclared : declaredEntries input.changeSet.patches = .ok declared)
    (hgranted : Granted git input previousVersion granted salvage)
    (hentries : effectiveEntries declared salvage = .ok entries) :
    declaredEntries granted = .ok entries := by
  cases salvage with
  | none =>
    rw [show granted = input.changeSet.patches from hgranted, hdeclared, ← hentries]
    rfl
  | some outcome =>
    rw [hgranted.2.1, ← hentries]
    rfl

variable {declared : List (String × FilePatchStatus)}

theorem integrateInWorkspace_at [TextRuntime] (hF : Concludes F E) (hc : env.Keeps c)
    (hhead : env.KeepsHead git) {q : W → Prop} (hq : Prepared git q)
    {input : IntegrateChangeSetInput} {previousVersion : Rev}
    (hcandidate : Concluded git env options c q input previousVersion F E)
    (hdeclared : declaredEntries input.changeSet.patches = .ok declared) (replaying : Bool) :
    Triple (At git c (Ready git q (git.tree previousVersion)))
      (integrateInWorkspace git env options input previousVersion declared replaying) F E := by
  have hE := hF.thrown
  unfold integrateInWorkspace
  refine triple_bind (collectBaseline_at hE hc hq hhead _ _ _) fun baseline => ?_
  refine triple_bind (reproduceBefore_at hE hc hq hhead _ _) fun reproductionBefore => ?_
  refine triple_bind (applyChangeSet_at hE hc hq input previousVersion) fun applied => ?_
  cases applied with
  | error answer => exact triple_pure fun s hs => hF.other _ rfl hs.1 hs.2.still
  | ok salvage =>
    refine triple_bind (R := fun entries s => effectiveEntries declared salvage = .ok entries ∧
      At git c (fun w => ∃ tree, Ready git q tree w ∧
        Candidate git input previousVersion salvage tree) s) ?_ fun entries => ?_
    · cases effectiveEntries declared salvage with
      | ok entries => exact triple_pure fun s hs => ⟨rfl, hs⟩
      | error e => exact triple_throw _ fun s hs => hE s hs.still
    · refine triple_assume fun hentries => ?_
      refine triple_bind (await_at hE hc) fun _ => triple_bind triple_get fun now => ?_
      rintro s ⟨rfl, hs⟩
      obtain ⟨tree, hready, granted, hgranted, htree⟩ := hs.worktree
      have hat : At git c (Ready git q tree) now := ⟨hs.off, hs.still, hs.canonical, hready⟩
      rw [show git.index now.worktree = some tree from hready.1]
      dsimp only
      refine triple_ite (fun hsame => hcandidate _ _ _ _ _ granted entries
        ⟨hgranted, htree, effectiveEntries_granted hdeclared hgranted hentries, hsame⟩)
        (fun _ => triple_pure fun s hs => ?_) now hat
      exact hF.other .policyFailed rfl (by decide) hs.still

theorem integrateAndCleanUp_at [TextRuntime] (hF : Concludes F E) (hc : env.Keeps c)
    (hhead : env.KeepsHead git) {q : W → Prop} (hq : Prepared git q)
    {input : IntegrateChangeSetInput} {previousVersion : Rev}
    (hcandidate : Concluded git env options c q input previousVersion F E)
    (hdeclared : declaredEntries input.changeSet.patches = .ok declared) (replaying : Bool) :
    Triple (fun s => s.moves = [] ∧ c s.canonical)
      (integrateAndCleanUp git env options input previousVersion declared replaying) F E := by
  unfold integrateAndCleanUp
  refine triple_bind ((await_still hc).raise hF.thrown) fun _ => ?_
  refine triple_bind (R := fun _ => At git c (Ready git q (git.tree previousVersion)))
    (triple_modify fun s hs => ?_) fun _ => ?_
  · refine ⟨?_, hs.1, hs.2, git.index_create previousVersion, hq.create previousVersion⟩
    rw [git.head_create]
    rfl
  · refine triple_bind (triple_attempt (integrateInWorkspace_at hF hc hhead hq hcandidate
      hdeclared replaying)) fun outcome => triple_bind triple_get fun now => ?_
    refine Triple.pre ?_ fun s hs => hs.2
    cases outcome with
    | error operation =>
      refine triple_bind (R := fun _ => E) ?_ fun cleanup => ?_
      · refine (triple_attempt (await_keeps (fun s hs => hF.thrownClock s _ _ hs)
          fun s hs => hs)).post fun answer s hs => ?_
        cases answer with
        | ok _ => exact hs
        | error _ => exact hs
      · cases cleanup with
        | ok _ => exact triple_throw _ fun s hs => hs
        | error _ => exact triple_throw _ fun s hs => hs
    | ok result =>
      refine triple_bind (R := fun _ => F result) ?_ fun cleanup => ?_
      · refine (triple_attempt (await_keeps (fun s hs => hF.clock result s _ _ hs)
          fun s hs => hs)).post fun answer s hs => ?_
        cases answer with
        | ok _ => exact hs
        | error _ => exact hs
      · have hreplayed : ∀ s, F result s → F
            (if replaying ∧ result.status = .integrated then
              { result with
                replayedFrom := some input.changeSet.baseRevision
                explanation := s!"{result.explanation}; replayed from " ++
                  s!"{input.changeSet.baseRevision.take 12} onto a canonical " ++
                  "revision that changed nothing it depends on" }
            else result) s := by
          intro s hs
          split
          · exact hF.restated result _ s ⟨rfl, rfl, rfl, rfl, rfl, rfl⟩ hs
          · exact hs
        cases cleanup with
        | ok _ => exact triple_pure hreplayed
        | error _ =>
          refine triple_pure fun s hs => hF.restated _ _ s ?_ (hreplayed s hs)
          exact ⟨rfl, rfl, rfl, rfl, rfl, rfl⟩

/-- Nothing was moved, and canonical is as said and about to be read. -/
structure Before (env : Environment Rev W) (c : Rev → Prop) (previousVersion : Rev)
    (s : State Rev W) : Prop where
  still : s.moves = []
  canonical : c s.canonical
  read : env.meanwhile s.time s.canonical = previousVersion

/-- **What is concluded of the applied tree is concluded of the call.** -/
theorem integrate_of_candidate [TextRuntime] (hF : Concludes F E) (hc : env.Keeps c)
    (hhead : env.KeepsHead git) {q : W → Prop} (hq : Prepared git q)
    {input : IntegrateChangeSetInput} {previousVersion : Rev}
    (hcandidate : Concluded git env options c q input previousVersion F E) :
    Triple (Before env c previousVersion) (integrate git env options input) F E := by
  unfold integrate
  refine triple_bind (R := fun revision s => revision = previousVersion ∧ s.moves = [] ∧
    c s.canonical) ?_ fun revision => triple_assume ?_
  · refine triple_bind (await_tick (Q := fun s => s.canonical = previousVersion ∧ s.moves = [] ∧
      c s.canonical) (fun s hs => ⟨hs.read, hs.still, hc _ _ hs.canonical⟩)
      fun s hs _ => hF.thrown _ hs.still) fun _ => triple_bind triple_get fun now => ?_
    refine triple_pure ?_
    rintro s ⟨rfl, hs⟩
    exact hs
  · rintro rfl
    refine triple_ite (fun _ => triple_pure fun s hs => hF.other .stale rfl (by decide) hs.1)
      fun _ => ?_
    refine triple_ite (fun _ => triple_pure fun s hs => hF.other .empty rfl (by decide) hs.1)
      fun _ => ?_
    refine triple_bind (R := fun declared s =>
      declaredEntries input.changeSet.patches = .ok declared ∧ s.moves = [] ∧ c s.canonical)
      ?_ fun declared => triple_assume fun hdeclared => ?_
    · change Triple _ (liftPaths (declaredEntries input.changeSet.patches)) _ _
      cases declaredEntries input.changeSet.patches with
      | ok declared => exact triple_pure fun s hs => ⟨rfl, hs⟩
      | error e => exact triple_throw _ fun s hs => hF.thrown s hs.1
    · exact triple_ite (fun _ => triple_pure fun s hs =>
        hF.other .policyFailed rfl (by decide) hs.1)
          fun _ => integrateAndCleanUp_at hF hc hhead hq hcandidate hdeclared _

theorem validateCandidate_granted [TextRuntime] (hhead : env.KeepsHead git)
    (input : IntegrateChangeSetInput) (previousVersion : Rev) :
    Concluded git env options (fun _ => True) (fun _ => True) input previousVersion
      (PromotesGranted git input) (ThrowsAfter git input) := by
  intro replaying baseline reproductionBefore salvage tree granted entries hdeclared
  have hE : ∀ s : State Rev W, s.moves = [] → ThrowsAfter git input s := fun s hs => .inl hs
  have hc : env.Keeps fun _ => True := fun _ _ _ => trivial
  unfold validateCandidate
  refine triple_bind (writeTree_at hE hc) fun candidateTree => ?_
  refine Triple.pre (P := fun s => candidateTree = tree ∧ At git (fun _ => True) (fun _ => True) s)
    (triple_assume ?_) fun s hs =>
      ⟨Option.some.inj (hs.worktree.2.symm.trans hs.worktree.1.1), hs.imp fun _ _ => trivial⟩
  rintro rfl
  refine triple_bind (validate_at hE hc hhead env.leaves_true _) fun validation => ?_
  refine triple_ite (fun _ => triple_pure fun s hs => ?_) fun _ => ?_
  · exact promotesGranted_other .validationFailed rfl (by decide) hs.still
  · refine triple_bind (reproduceAfter_at hE hc hhead env.leaves_true _ _) fun reproduction => ?_
    refine triple_bind (gradeEdits_at hE hc hhead env.leaves_true
      ⟨fun _ _ _ _ => trivial, fun _ _ => trivial⟩ _) fun graderEdits => ?_
    refine promoteCandidate_at (q := fun _ => True) (promotesGranted_concludes input) hc input
      previousVersion replaying salvage candidateTree _ _ _ _ (fun _ _ _ => trivial)
      (fun _ _ _ _ => trivial) ?_ ?_
    · intro answer candidate s hlands
      obtain ⟨hstatus, rfl, hrevision, -, hdeferred, hdivided, hmade, hpromoted⟩ := hlands
      exact promotesGranted_landed hstatus ⟨hrevision, hmade.parents,
        hmade.tree.trans hdeclared.patched, hdeclared.grants, hdeferred, hdivided⟩
        hpromoted.promotes
    · intro candidate promoted s hmade hpromoted _ _
      exact hpromoted.promotes.atMost.imp id fun hmoves =>
        ⟨_, _, salvage, hmoves, granted, hdeclared.grants, hmade.tree.trans hdeclared.patched⟩

/-- **What is promoted is the granted list, and any other answer promotes nothing.** -/
theorem integrate_promotes [TextRuntime] (hhead : env.KeepsHead git)
    (input : IntegrateChangeSetInput) :
    Triple (fun s => s.moves = []) (integrate git env options input)
      (PromotesGranted git input) (ThrowsAfter git input) :=
  fun s hs => integrate_of_candidate (promotesGranted_concludes input) (fun _ _ _ => trivial) hhead
    prepared_true (validateCandidate_granted hhead input _) s ⟨hs, trivial, rfl⟩

end Stages

/-! ## A repository of one file -/

/-- Trees are texts that patches are added to, and a commit is its history, newest first. -/
def textGit : Git (List String) String (Option String × Head (List String)) where
  revisionText r := String.join r
  tree r := r.headD ""
  parents r := [r.tail]
  commit r t _ := t :: r
  patched t p := t ++ p
  accepts _ _ := true
  nameStatus _ _ := [("a.txt", .modified)]
  index := Prod.fst
  head := Prod.snd
  create r := (some (r.headD ""), .detached r)
  reset w r := (some (r.headD ""), w.2.move r)
  clean w := w
  apply w p := ⟨(w.1.map (· ++ p), w.2), true, ""⟩
  unmerged _ := []
  restore w _ _ := some w
  checkoutIndex w _ := w
  committed w r := (w.1, w.2.move r)
  changed _ := []
  untracked _ := []
  tree_commit _ _ _ := rfl
  parents_commit _ _ _ := rfl
  index_create _ := rfl
  head_create _ := rfl
  index_reset _ _ := rfl
  head_reset _ _ := rfl
  index_clean _ := rfl
  head_clean _ := rfl
  head_apply _ _ := rfl
  index_apply w p t h _ := by
    dsimp only
    rw [h]
    rfl
  apply_pristine _ _ _ := rfl
  head_restore w r paths w' h := by rw [Option.some.inj h]
  head_checkoutIndex _ _ := rfl
  head_committed _ _ := rfl

/-- Nobody else promotes, nothing fails, and every command passes. -/
def calm : Environment (List String) (Option String × Head (List String)) where
  meanwhile _ r := r
  fails _ := false
  locked _ := false
  run _ w _ := (w, 0, false)

def onePatch : IntegrateChangeSetInput where
  changeSet := ⟨"changeset-1", "task-1", 1, "base",
    [⟨"a.txt", .modified, "@@ -1,1 +1,1 @@\n-a\n+b\n"⟩]⟩
  validationCommands := []
  affectedTestCommand := none
  reproductionTest := none
  commitMessage := "change a"
  author := none
  trailers := []
  requireExactBase := false
  replayableOnto := none
  salvageConflicts := true

end AgenticGit.Integration
