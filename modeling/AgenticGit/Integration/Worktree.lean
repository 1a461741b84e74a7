import AgenticGit.Lib.Effects
import AgenticGit.Shared.ChangeSet

/- The worktree an integration runs in, and the branch it promotes to.

   Git and the validation commands are outside the source. `Git` has what the commands do
   to a worktree and what is documented of it; a validation command does anything to the
   worktree it is run in (`Environment.run`). Between two steps others may move canonical
   (`meanwhile`), and any step may fail (`fails`).

   `moves` is a record of what this call did to the canonical branch, and nothing reads it:
   `update-ref` moves it, and so do `reset --hard` and `commit` in a worktree whose HEAD is
   attached to it. -/
namespace AgenticGit.Integration
open AgenticGit.Runtime AgenticGit.Shared AgenticGit.Effects

/-! ## Git -/

structure CommitTrailer where
  key : String
  value : String
  deriving DecidableEq, Repr

structure CommitMessage where
  message : String
  author : Option String
  trailers : List CommitTrailer
  deriving DecidableEq, Repr

inductive Head (Rev : Type) where
  /-- A commit, or another branch at that commit. -/
  | detached (revision : Rev)
  /-- The canonical branch. -/
  | onCanonical
  deriving DecidableEq, Repr

def Head.attached {Rev : Type} : Head Rev → Bool
  | .detached _ => false
  | .onCanonical => true

def Head.move {Rev : Type} (head : Head Rev) (revision : Rev) : Head Rev :=
  if head.attached then .onCanonical else .detached revision

/-- What `git apply` answers. -/
structure Applied (W : Type) where
  worktree : W
  clean : Bool
  detail : String

/-- Git, with commits `Rev`, trees `Tree` and worktrees `W`. -/
structure Git (Rev Tree W : Type) where
  revisionText : Rev → String
  tree : Rev → Tree
  parents : Rev → List Rev
  commit : Rev → Tree → CommitMessage → Rev
  /-- What a patch leaves of a tree it applies to. -/
  patched : Tree → String → Tree
  /-- Whether a patch applies to a pristine worktree of a revision. -/
  accepts : Rev → String → Bool
  /-- `diff --cached --name-status`: from the revision's tree to the index. -/
  nameStatus : Tree → Tree → List (String × FilePatchStatus)
  /-- What `write-tree` writes; none of an index with unmerged entries. -/
  index : W → Option Tree
  head : W → Head Rev
  create : Rev → W
  reset : W → Rev → W
  clean : W → W
  apply : W → String → Applied W
  unmerged : W → List String
  /-- `restore --worktree --source`; none when a path is not in the revision. -/
  restore : W → Rev → List String → Option W
  checkoutIndex : W → List String → W
  /-- `commit`: what the worktree is with HEAD at the new commit. -/
  committed : W → Rev → W
  /-- `diff --name-only`: tracked files that are not as in the index. -/
  changed : W → List String
  /-- `ls-files --others`, less what is ephemeral. -/
  untracked : W → List String
  tree_commit : ∀ r t m, tree (commit r t m) = t
  parents_commit : ∀ r t m, parents (commit r t m) = [r]
  index_create : ∀ r, index (create r) = some (tree r)
  head_create : ∀ r, head (create r) = .detached r
  index_reset : ∀ w r, index (reset w r) = some (tree r)
  head_reset : ∀ w r, head (reset w r) = (head w).move r
  index_clean : ∀ w, index (clean w) = index w
  head_clean : ∀ w, head (clean w) = head w
  head_apply : ∀ w p, head (apply w p).worktree = head w
  /-- A patch applies whole: the index is the patched tree. -/
  index_apply : ∀ w p t, index w = some t → (apply w p).clean = true →
    index (apply w p).worktree = some (patched t p)
  /-- On a pristine worktree the answer depends on the patch alone. -/
  apply_pristine : ∀ w r p, (apply (clean (reset w r)) p).clean = accepts r p
  head_restore : ∀ w r paths w', restore w r paths = some w' → head w' = head w
  head_checkoutIndex : ∀ w paths, head (checkoutIndex w paths) = head w
  head_committed : ∀ w r, head (committed w r) = (head w).move r

/-! ## Commands -/

structure ValidationCommand where
  executable : String
  args : List String
  label : String
  /-- A pass is evidence about the shape of the patch only. -/
  provesIntegrity : Bool := false
  deriving DecidableEq, Repr

structure CommandResult where
  command : ValidationCommand
  exitCode : Int
  timedOut : Bool
  deriving DecidableEq, Repr

/-- What an integration does not decide: the commands, what others promote, and what
fails. The number is that of the step. -/
structure Environment (Rev W : Type) where
  meanwhile : Nat → Rev → Rev
  fails : Nat → Bool
  /-- `update-ref` fails for a reason of its own. -/
  locked : Nat → Bool
  run : Nat → W → ValidationCommand → W × Int × Bool

/-- No command attaches HEAD to the canonical branch. -/
def Environment.KeepsHead {Rev Tree W : Type} (env : Environment Rev W)
    (git : Git Rev Tree W) : Prop :=
  ∀ n w command, (git.head w).attached = false →
    (git.head (env.run n w command).1).attached = false

structure Move (Rev : Type) where
  source : Rev
  target : Rev
  deriving DecidableEq, Repr

structure State (Rev W : Type) where
  worktree : W
  canonical : Rev
  time : Nat
  moves : List (Move Rev)
  /-- Where a failed promotion found canonical. -/
  found : List Rev

inductive IntegrationError where
  | path (error : PathError)
  /-- A command that had to succeed did not. -/
  | command (step : Nat)
  /-- "Could not restore the changeset after grading it without its grader edits". -/
  | unrestored
  /-- "Integration and integration-workspace cleanup both failed". -/
  | cleanup (operation : IntegrationError)
  deriving DecidableEq, Repr

abbrev M (Rev W : Type) := EStateM IntegrationError (State Rev W)

section Steps

variable {Rev Tree W : Type} (git : Git Rev Tree W) (env : Environment Rev W)

/-- One step: others move canonical, and the step may fail. -/
def await : M Rev W Unit := do
  let s ← get
  set { s with time := s.time + 1, canonical := env.meanwhile s.time s.canonical }
  if env.fails s.time then throw (.command s.time) else pure ()

def setWorktree (w : W) : M Rev W Unit := modify fun s => { s with worktree := w }

/-- What a worktree whose HEAD is attached does to the branch. -/
def State.follow (git : Git Rev Tree W) (s : State Rev W) (target : Rev) : State Rev W :=
  if (git.head s.worktree).attached then
    { s with canonical := target, moves := s.moves ++ [⟨s.canonical, target⟩] }
  else s

/-- `reset --hard`. -/
def resetHard (revision : Rev) : M Rev W Unit := do
  await env
  modify fun s => { s.follow git revision with worktree := git.reset s.worktree revision }

/-- Returns the workspace to the revision it was built at. -/
def resetWorkspace (revision : Rev) : M Rev W Unit := do
  resetHard git env revision
  await env
  modify fun s => { s with worktree := git.clean s.worktree }

def applyPatch (patchText : String) : M Rev W (Applied W) := do
  await env
  let s ← get
  let applied := git.apply s.worktree patchText
  setWorktree applied.worktree
  return applied

/-- Whether a patch applies to a pristine workspace. Leaves it pristine. -/
def appliesCleanly (revision : Rev) (patchText : String) : M Rev W Bool := do
  let applied ← applyPatch git env patchText
  resetWorkspace git env revision
  return applied.clean

def writeTree : M Rev W Tree := do
  await env
  let s ← get
  match git.index s.worktree with
  | some tree => return tree
  | none => throw (.command s.time)

/-- `rev-parse HEAD`. -/
def revParseHead : M Rev W Rev := do
  await env
  let s ← get
  match git.head s.worktree with
  | .detached revision => return revision
  | .onCanonical => return s.canonical

/-- One validation command in a workspace, as a recorded result. -/
def runValidationCommand (command : ValidationCommand) : M Rev W CommandResult := do
  await env
  let s ← get
  let (worktree, exitCode, timedOut) := env.run s.time s.worktree command
  setWorktree worktree
  return ⟨command, exitCode, timedOut⟩

def getCanonicalVersion : M Rev W Rev := do
  await env
  let s ← get
  return s.canonical

/-- Commits exactly the content already staged in the index; none when there is nothing to
commit. -/
def commitIndex [DecidableEq Tree] (message : CommitMessage) : M Rev W (Option Rev) := do
  let staged ← writeTree git env
  let parent ← revParseHead git env
  if staged = git.tree parent then return none
  else do
    await env
    let s ← get
    let parent := match git.head s.worktree with
      | .detached revision => revision
      | .onCanonical => s.canonical
    match git.index s.worktree with
    | none => throw (.command s.time)
    | some tree =>
      let candidate := git.commit parent tree message
      modify fun s => { s.follow git candidate with
        worktree := git.committed s.worktree candidate }
      let revision ← revParseHead git env
      return some revision

/-- `update-ref` with the expected revision, and what is made of its failure. -/
def promote [DecidableEq Rev] (candidate expected : Rev) : M Rev W Bool := do
  await env
  let s ← get
  if s.canonical = expected ∧ env.locked s.time = false then do
    set { s with
      canonical := candidate, moves := s.moves ++ [(⟨expected, candidate⟩ : Move Rev)] }
    return true
  else do
    let current ← getCanonicalVersion env
    modify fun s => { s with found := s.found ++ [current] }
    if current = candidate then return true
    else if current ≠ expected then return false
    else throw (.command s.time)

end Steps

end AgenticGit.Integration
