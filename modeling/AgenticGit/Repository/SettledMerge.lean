import AgenticGit.Lib.Runtime

/- Settling a diverged sync: `settleUnmergedPaths`, `treeEntry` and the choice of a
   side in `mergeUpstream` of `repository-service.ts`.

   Correspondence (TypeScript ↔ Lean):
     the conflicted merge             ↔ `Merge`: the two sides' trees and the index
     ls-files --unmerged              ↔ the `unmerged` records of the index
     HEAD / MERGE_HEAD                ↔ `Side.ours` / `Side.theirs`
     perFile[file]                    ↔ `choose`: an own key, or else a member that
       every object has
     git rm -- file                   ↔ `Index.rm`: all that the pathspec matches
     a command that exits with an error ↔ `Git.fails`
     merge --abort, and the worktree removed ↔ `abort`

   What is proved: the index after the loop is what the actions on its paths make of
   each path (`entry_effects`); a sync that commits is right exactly when every path has an
   own answer, none is dropped that the chosen side holds, and what is dropped matches
   nothing else (`settleConflicts_right`). A path that is named as a member of
   every object is settled without an answer (`settleConflicts_unanswered`). -/
namespace AgenticGit.Repository.Settled
open AgenticGit.Runtime

/-! ## The merge -/

inductive Side where
  | ours | theirs
  deriving DecidableEq, Repr

def Side.other : Side → Side
  | .ours => .theirs
  | .theirs => .ours

inductive EntryType where
  | blob | commit | tree
  deriving DecidableEq, Repr

/-- What an index or a tree holds of a file. -/
structure Blob where
  mode : String
  sha : String
  deriving DecidableEq, Repr

structure TreeEntry extends Blob where
  type : EntryType
  deriving DecidableEq, Repr

/-- A record of `ls-files --unmerged`. Stage 2 is ours, 3 is theirs. -/
structure StageRecord where
  mode : String
  sha : String
  stage : Nat
  file : String
  deriving DecidableEq, Repr

structure Index where
  merged : List (String × Blob)
  unmerged : List StageRecord
  deriving DecidableEq, Repr

/-- The conflicted paths, in the order of their first records. -/
def Index.conflicted (index : Index) : List String := unique (index.unmerged.map StageRecord.file)

def Index.stages (index : Index) (file : String) : List Nat :=
  (index.unmerged.filter fun record => record.file = file).map StageRecord.stage

def Index.entry (index : Index) (file : String) : Option Blob := index.merged.lookup file

/-- A conflicted merge: what either side's commit holds, and the index, which holds a
    path either merged or in stages. -/
structure Merge where
  tree : Side → String → Option TreeEntry
  revision : Side → String
  index : Index
  apart : ∀ record ∈ index.unmerged, index.entry record.file = none

structure Commit where
  tree : String → Option Blob
  parents : List String

inductive Command where
  | diff
  | lsFiles
  | lsTree (side : Side) (file : String)
  | rm (file : String)
  | updateIndex (file : String)
  | checkoutIndex
  | commit
  deriving DecidableEq, Repr

/-- How git answers: the commands that exit with an error, and the paths that a
    pathspec matches. -/
structure Git where
  fails : Command → Bool
  pathspec : String → String → Bool

/-! ## The choice of a side -/

inductive FileAnswer where
  | localSide | remoteSide
  deriving DecidableEq, Repr

inductive SyncConflictResolution where
  | refuse | preferRemote | preferLocal
  | perFile (answers : List (String × FileAnswer))
  deriving DecidableEq, Repr

/-- The members that every object has from its prototype. -/
def objectMembers : List String :=
  ["constructor", "__defineGetter__", "__defineSetter__", "hasOwnProperty", "__lookupGetter__",
    "__lookupSetter__", "isPrototypeOf", "propertyIsEnumerable", "toString", "valueOf",
    "__proto__", "toLocaleString"]

def choose (resolution : SyncConflictResolution) (file : String) : Option Side :=
  match resolution with
  | .perFile answers =>
    match answers.lookup file with
    | some .remoteSide => some .theirs
    | some .localSide => some .ours
    | none => if file ∈ objectMembers then some .ours else none
  | .preferRemote => some .theirs
  | _ => some .ours

/-! ## The loop over the paths -/

section
variable (g : Git) (m : Merge) (resolution : SyncConflictResolution)

def unmergedStages : Option (List (String × List Nat)) :=
  if g.fails .lsFiles then none
  else some (m.index.conflicted.map fun file => (file, m.index.stages file))

def treeEntry (side : Side) (file : String) : Option TreeEntry :=
  if g.fails (.lsTree side file) then none else m.tree side file

/-- `git rm --force`: every path that the pathspec matches leaves the index. -/
def Index.rm (index : Index) (file : String) : Index :=
  ⟨index.merged.filter fun entry => !g.pathspec file entry.1,
    index.unmerged.filter fun record => !g.pathspec file record.file⟩

/-- `git update-index --add --cacheinfo`: the path has this entry and no stages. -/
def Index.add (index : Index) (file : String) (blob : Blob) : Index :=
  ⟨index.merged.filter (fun entry => !decide (entry.1 = file)) ++ [(file, blob)],
    index.unmerged.filter fun record => !decide (record.file = file)⟩

def drop (index : Index) (file : String) : Except Index Index :=
  if g.fails (.rm file) then .error index else .ok (index.rm g file)

/-- One path of the loop: the index after it, or the index at which it gives up. -/
def settlePath (index : Index) (entry : String × List Nat) : Except Index Index :=
  let file := entry.1
  match choose resolution file with
  | none => .error index
  | some strategy =>
    match treeEntry g m strategy file with
    | none =>
      if (treeEntry g m strategy.other file).isSome then drop g index file
      else if 2 ∉ entry.2 ∧ 3 ∉ entry.2 then drop g index file
      else .error index
    | some mine =>
      if mine.type ≠ .blob ∧ mine.type ≠ .commit then .error index
      else if g.fails (.updateIndex file) then .error index
      else .ok (index.add file mine.toBlob)

structure Worktree where
  index : Index
  merging : Bool
  /-- What the branch has moved to, newest first. -/
  branch : List Commit

def settleUnmergedPaths : Bool × Worktree :=
  match unmergedStages g m with
  | none => (false, ⟨m.index, true, []⟩)
  | some stages =>
    if stages.length = 0 then (false, ⟨m.index, true, []⟩)
    else
      match stages.foldlM (settlePath g m resolution) m.index with
      | .error index => (false, ⟨index, true, []⟩)
      | .ok index =>
        if g.fails .checkoutIndex then (false, ⟨index, true, []⟩)
        else if g.fails .commit || !index.unmerged.isEmpty then (false, ⟨index, true, []⟩)
        else (true, ⟨index, false, [⟨index.entry, [m.revision .ours, m.revision .theirs]⟩]⟩)

/-- The merge is aborted, or goes with its worktree. -/
def abort (w : Worktree) : Worktree := { w with merging := false }

inductive SyncError where
  | gitCommand
  | diverged (upstreamBranch : String) (files : List String)
  deriving DecidableEq, Repr

inductive ResolvedSide where
  | remoteSide | localSide | mixed
  deriving DecidableEq, Repr

/-- `mergeUpstream` from a merge that clashed: what it answers, and the worktree. -/
def settleConflicts (upstreamBranch : String) :
    Except SyncError (ResolvedSide × List String) × Worktree :=
  let conflicts := if g.fails .diff then [] else m.index.conflicted
  let refused : Worktree → Except SyncError (ResolvedSide × List String) × Worktree :=
    fun w => (.error (.diverged upstreamBranch conflicts), abort w)
  if conflicts.length = 0 then (.error .gitCommand, abort ⟨m.index, true, []⟩)
  else if resolution = .refuse then refused ⟨m.index, true, []⟩
  else
    let sides := unique (conflicts.map (choose resolution))
    let side :=
      if sides.length = 1 then
        if some .theirs ∈ sides then ResolvedSide.remoteSide else .localSide
      else .mixed
    match settleUnmergedPaths g m resolution with
    | (false, w) => refused w
    | (true, w) => (.ok (side, conflicts), w)

/-! ## What a settled sync is -/

end

/-- The person's answer for a path: its own key, or the side chosen for all. -/
def Answered (resolution : SyncConflictResolution) (file : String) (side : Side) : Prop :=
  match resolution, side with
  | .perFile answers, .theirs => answers.lookup file = some .remoteSide
  | .perFile answers, .ours => answers.lookup file = some .localSide
  | .preferRemote, side => side = .theirs
  | .preferLocal, side => side = .ours
  | .refuse, _ => False

/-- The commit takes the sides that were answered and the rest as it was merged. -/
structure Takes (m : Merge) (resolution : SyncConflictResolution) (commit : Commit) : Prop where
  parents : commit.parents = [m.revision .ours, m.revision .theirs]
  answered : ∀ file ∈ m.index.conflicted, ∃ side, Answered resolution file side ∧
    commit.tree file = (m.tree side file).map TreeEntry.toBlob
  others : ∀ file, file ∉ m.index.conflicted → commit.tree file = m.index.entry file

/-- Settled right, or aborted with the branch where it was. -/
def Right (m : Merge) (resolution : SyncConflictResolution) (w : Worktree) : Prop :=
  (w.branch = [] ∧ w.merging = false) ∨
    ∃ commit, w.branch = [commit] ∧ w.merging = false ∧ Takes m resolution commit

inductive Action where
  | add (blob : Blob)
  | drop
  deriving DecidableEq, Repr

section
variable (g : Git) (m : Merge) (resolution : SyncConflictResolution)

/-- The action on a path, or none when it is refused. -/
def actionOn (file : String) : Option Action :=
  (choose resolution file).bind fun strategy =>
    match treeEntry g m strategy file with
    | none =>
      if (treeEntry g m strategy.other file).isSome ∨
          (2 ∉ m.index.stages file ∧ 3 ∉ m.index.stages file) then some .drop
      else none
    | some mine =>
      if mine.type ≠ .blob ∧ mine.type ≠ .commit then none else some (.add mine.toBlob)

def Action.command (file : String) : Action → Command
  | .add _ => .updateIndex file
  | .drop => .rm file

def Action.perform (index : Index) (file : String) : Action → Index
  | .add blob => index.add file blob
  | .drop => index.rm g file

/-- Every step of the sync goes through. -/
structure GoesThrough : Prop where
  listed : g.fails .diff = false ∧ g.fails .lsFiles = false
  unmerged : m.index.unmerged ≠ []
  asked : resolution ≠ .refuse
  acts : ∀ file ∈ m.index.conflicted, ∃ action, actionOn g m resolution file = some action ∧
    g.fails (action.command file) = false
  /-- What is dropped is matched: by its own pathspec, where that has no magic. -/
  cleared : ∀ file ∈ m.index.conflicted, actionOn g m resolution file = some .drop →
    ∃ other ∈ m.index.conflicted, actionOn g m resolution other = some .drop ∧
      g.pathspec other file = true
  written : g.fails .checkoutIndex = false
  committed : g.fails .commit = false

/-- Every path is answered for, what is dropped is not on the chosen side, and its
    pathspec matches nothing that merged cleanly or was added before it. -/
structure Honest : Prop where
  answered : ∀ file ∈ m.index.conflicted, ∃ side, Answered resolution file side
  absent : ∀ file ∈ m.index.conflicted, actionOn g m resolution file = some .drop →
    ∀ side, choose resolution file = some side → m.tree side file = none
  alone : ∀ before file behind, m.index.conflicted = before ++ file :: behind →
    actionOn g m resolution file = some .drop → ∀ other, g.pathspec file other = true →
      m.index.entry other = none ∧
        ¬ (other ∈ before ∧ ∃ blob, actionOn g m resolution other = some (.add blob))

/-! ## The index after the loop -/

theorem lookup_filter {l : List (String × Blob)} (keep : String → Bool) (p : String) :
    (l.filter fun entry => keep entry.1).lookup p = if keep p then l.lookup p else none := by
  induction l with
  | nil => rw [List.filter_nil, List.lookup_nil, ite_self]
  | cons entry l ih =>
    obtain ⟨file, blob⟩ := entry
    rw [List.filter_cons]
    by_cases hkey : p = file
    · subst hkey
      by_cases hkeep : keep p
      · rw [if_pos hkeep, if_pos hkeep, List.lookup_cons_self, List.lookup_cons_self]
      · rw [if_neg hkeep, ih, if_neg hkeep, if_neg hkeep]
    · have hbeq : (p == file) = false := beq_eq_false_iff_ne.2 hkey
      by_cases hkeep : keep file
      · rw [if_pos hkeep, List.lookup_cons, List.lookup_cons, hbeq]
        exact ih
      · rw [if_neg hkeep, ih, List.lookup_cons, hbeq]

theorem entry_rm (index : Index) (file p : String) :
    (index.rm g file).entry p = if g.pathspec file p then none else index.entry p := by
  rw [Index.entry, Index.rm, lookup_filter fun key => !g.pathspec file key]
  cases g.pathspec file p <;> rfl

theorem entry_add (index : Index) (file p : String) (blob : Blob) :
    (index.add file blob).entry p = if file = p then some blob else index.entry p := by
  rw [Index.entry, Index.add, List.lookup_append, lookup_filter fun key => !decide (key = file)]
  by_cases h : file = p
  · subst h
    simp
  · have hbeq : (p == file) = false := beq_eq_false_iff_ne.2 (Ne.symm h)
    simp [h, Ne.symm h, hbeq, Index.entry, List.lookup_cons]

/-- The actions on the paths, one after the other. -/
def performAll (index : Index) (files : List String) : Index :=
  files.foldl (fun index file =>
    match actionOn g m resolution file with
    | some action => action.perform g index file
    | none => index) index

/-- What the action on a file makes of the entry of a path. -/
def effect (p : String) (held : Option Blob) (file : String) : Option Blob :=
  match actionOn g m resolution file with
  | some (.add blob) => if file = p then some blob else held
  | some .drop => if g.pathspec file p then none else held
  | none => held

/-- **The entry of a path after the loop** is what the actions make of it. -/
theorem entry_effects (index : Index) (files : List String) (p : String) :
    (performAll g m resolution index files).entry p =
      files.foldl (effect g m resolution p) (index.entry p) := by
  induction files generalizing index with
  | nil => rfl
  | cons file files ih =>
    rw [performAll, List.foldl_cons, ← performAll, ih, List.foldl_cons, effect]
    cases actionOn g m resolution file with
    | none => rfl
    | some action =>
      cases action with
      | add blob => simp only [Action.perform, entry_add]
      | drop => simp only [Action.perform, entry_rm]

variable {g m resolution}

theorem effects_not_added {p : String} {files : List String} {held : Option Blob}
    (h : ∀ blob, p ∈ files → actionOn g m resolution p ≠ some (.add blob)) :
    files.foldl (effect g m resolution p) held = none ∧ (∃ file ∈ files,
        actionOn g m resolution file = some .drop ∧ g.pathspec file p = true) ∨
      files.foldl (effect g m resolution p) held = held ∧ ∀ file ∈ files,
        actionOn g m resolution file = some .drop → g.pathspec file p = false := by
  induction files generalizing held with
  | nil => exact .inr ⟨rfl, fun _ hfile => (List.not_mem_nil hfile).elim⟩
  | cons file files ih =>
    have hrest : ∀ blob, p ∈ files → actionOn g m resolution p ≠ some (.add blob) :=
      fun blob hp => h blob (List.mem_cons_of_mem _ hp)
    rw [List.foldl_cons]
    -- the first action drops the path, or leaves it
    have hfirst : (effect g m resolution p held file = none ∧
          actionOn g m resolution file = some .drop ∧ g.pathspec file p = true) ∨
        (effect g m resolution p held file = held ∧
          (actionOn g m resolution file = some .drop → g.pathspec file p = false)) := by
      rw [effect]
      cases haction : actionOn g m resolution file with
      | none => exact .inr ⟨rfl, fun hdrop => by cases hdrop⟩
      | some action =>
        cases action with
        | add blob =>
          refine .inr ⟨if_neg ?_, fun hdrop => by cases hdrop⟩
          rintro rfl
          exact h blob List.mem_cons_self haction
        | drop =>
          cases hmatch : g.pathspec file p with
          | true => exact .inl ⟨if_pos rfl, rfl, rfl⟩
          | false => exact .inr ⟨if_neg Bool.false_ne_true, fun _ => rfl⟩
    rcases hfirst with ⟨heffect, hdrop, hmatch⟩ | ⟨heffect, hleft⟩
    · left
      refine ⟨?_, file, List.mem_cons_self, hdrop, hmatch⟩
      rw [heffect]
      rcases @ih none hrest with ⟨hnone, -⟩ | ⟨hnone, -⟩
      · exact hnone
      · exact hnone
    · rw [heffect]
      rcases @ih held hrest with ⟨hnone, other, hother, hboth⟩ | ⟨hheld, hall⟩
      · exact .inl ⟨hnone, other, List.mem_cons_of_mem _ hother, hboth⟩
      · refine .inr ⟨hheld, fun other hother hdrop => ?_⟩
        rcases List.mem_cons.1 hother with rfl | hother
        · exact hleft hdrop
        · exact hall other hother hdrop

theorem effects_added {before behind : List String} {p : String} {blob : Blob}
    {held : Option Blob} (hadd : actionOn g m resolution p = some (.add blob))
    (hbehind : p ∉ behind) :
    (before ++ p :: behind).foldl (effect g m resolution p) held = none ∧ (∃ file ∈ behind,
        actionOn g m resolution file = some .drop ∧ g.pathspec file p = true) ∨
      (before ++ p :: behind).foldl (effect g m resolution p) held = some blob ∧ ∀ file ∈ behind,
        actionOn g m resolution file = some .drop → g.pathspec file p = false := by
  have hown : ∀ held', effect g m resolution p held' p = some blob := by
    intro held'
    rw [effect, hadd]
    exact if_pos rfl
  rw [List.foldl_append, List.foldl_cons, hown]
  exact effects_not_added fun _ hp => absurd hp hbehind

theorem mem_unmerged_performAll (index : Index) (files : List String) (record : StageRecord) :
    record ∈ (performAll g m resolution index files).unmerged ↔
      record ∈ index.unmerged ∧ ∀ file ∈ files,
        (∀ blob, actionOn g m resolution file = some (.add blob) → record.file ≠ file) ∧
          (actionOn g m resolution file = some .drop → g.pathspec file record.file = false) := by
  induction files generalizing index with
  | nil => exact ⟨fun h => ⟨h, fun _ hfile => (List.not_mem_nil hfile).elim⟩, fun h => h.1⟩
  | cons file files ih =>
    rw [performAll, List.foldl_cons, ← performAll, ih, List.forall_mem_cons, ← and_assoc]
    refine and_congr_left fun _ => ?_
    cases haction : actionOn g m resolution file with
    | none => simp
    | some action =>
      cases action with
      | add blob => simp [Action.perform, Index.add]
      | drop => simp [Action.perform, Index.rm]

end

/-! ## When the loop goes through -/

section
variable {g : Git} {m : Merge} {resolution : SyncConflictResolution}

theorem settlePath_eq (index : Index) (file : String) :
    settlePath g m resolution index (file, m.index.stages file) =
      match actionOn g m resolution file with
      | none => .error index
      | some action =>
        if g.fails (action.command file) then .error index
        else .ok (action.perform g index file) := by
  rw [settlePath, actionOn]
  cases choose resolution file with
  | none => rfl
  | some strategy =>
    simp only [Option.bind_some]
    cases treeEntry g m strategy file with
    | none =>
      by_cases hother : (treeEntry g m strategy.other file).isSome
      · simp only [hother, if_true, true_or]
        rfl
      · by_cases hbase : 2 ∉ m.index.stages file ∧ 3 ∉ m.index.stages file
        · simp only [hother, hbase, not_false_eq_true, and_self, or_true, if_true, if_false,
            Bool.false_eq_true]
          rfl
        · simp only [hother, hbase, or_self, if_false, Bool.false_eq_true]
    | some mine =>
      by_cases htree : mine.type ≠ .blob ∧ mine.type ≠ .commit
      · simp only [if_pos htree]
      · simp only [if_neg htree]
        rfl

/-- The path has an action, and its command does not fail. -/
def Acts (g : Git) (m : Merge) (resolution : SyncConflictResolution) (file : String) : Prop :=
  ∃ action, actionOn g m resolution file = some action ∧ g.fails (action.command file) = false

theorem settlePath_acts {index : Index} {file : String} (h : Acts g m resolution file) :
    settlePath g m resolution index (file, m.index.stages file) =
      .ok (performAll g m resolution index [file]) := by
  obtain ⟨action, haction, hfails⟩ := h
  rw [settlePath_eq, performAll, List.foldl_cons, List.foldl_nil, haction]
  simp only [hfails, Bool.false_eq_true, if_false]

theorem settlePath_refuses {index : Index} {file : String} (h : ¬ Acts g m resolution file) :
    settlePath g m resolution index (file, m.index.stages file) = .error index := by
  rw [settlePath_eq]
  cases haction : actionOn g m resolution file with
  | none => rfl
  | some action =>
    cases hfails : g.fails (action.command file) with
    | false => exact absurd ⟨action, haction, hfails⟩ h
    | true => exact if_pos hfails

/-- **The loop** performs the actions, or gives up at the first path that does not act. -/
theorem settlePaths_eq (index : Index) (files : List String) :
    (∀ file ∈ files, Acts g m resolution file) ∧
        (files.map fun file => (file, m.index.stages file)).foldlM
          (settlePath g m resolution) index = .ok (performAll g m resolution index files) ∨
      ¬ (∀ file ∈ files, Acts g m resolution file) ∧ ∃ index',
        (files.map fun file => (file, m.index.stages file)).foldlM
          (settlePath g m resolution) index = .error index' := by
  induction files generalizing index with
  | nil => exact .inl ⟨fun _ hfile => (List.not_mem_nil hfile).elim, rfl⟩
  | cons file files ih =>
    rw [List.map_cons, List.foldlM_cons, List.forall_mem_cons]
    by_cases hfile : Acts g m resolution file
    · rw [settlePath_acts hfile]
      rcases ih (performAll g m resolution index [file]) with ⟨hall, hok⟩ | ⟨hnot, index', herr⟩
      · exact .inl ⟨⟨hfile, hall⟩, hok⟩
      · exact .inr ⟨fun h => hnot h.2, index', herr⟩
    · rw [settlePath_refuses hfile]
      exact .inr ⟨fun h => hfile h.1, index, rfl⟩

theorem mem_conflicted {index : Index} {file : String} :
    file ∈ index.conflicted ↔ ∃ record ∈ index.unmerged, record.file = file := by
  rw [Index.conflicted, mem_unique, List.mem_map]

theorem unmerged_cleared (hacts : ∀ file ∈ m.index.conflicted, Acts g m resolution file) :
    (performAll g m resolution m.index m.index.conflicted).unmerged = [] ↔
      ∀ file ∈ m.index.conflicted, actionOn g m resolution file = some .drop →
        ∃ other ∈ m.index.conflicted, actionOn g m resolution other = some .drop ∧
          g.pathspec other file = true := by
  rw [List.eq_nil_iff_forall_not_mem]
  constructor
  · intro hnone file hfile hdrop
    by_contra hleft
    obtain ⟨record, hrecord, rfl⟩ := mem_conflicted.1 hfile
    refine hnone record ((mem_unmerged_performAll _ _ _).2 ⟨hrecord, fun other hother => ⟨?_, ?_⟩⟩)
    · rintro blob hadd rfl
      rw [hdrop] at hadd
      cases hadd
    · intro hother'
      cases hmatch : g.pathspec other record.file with
      | false => rfl
      | true => exact absurd ⟨other, hother, hother', hmatch⟩ hleft
  · intro hcleared record hrecord
    obtain ⟨hmem, hkept⟩ := (mem_unmerged_performAll _ _ _).1 hrecord
    have hfile : record.file ∈ m.index.conflicted := mem_conflicted.2 ⟨record, hmem, rfl⟩
    obtain ⟨action, haction, -⟩ := hacts _ hfile
    cases action with
    | add blob => exact (hkept _ hfile).1 blob haction rfl
    | drop =>
      obtain ⟨other, hother, hdrop, hmatch⟩ := hcleared _ hfile haction
      rw [(hkept other hother).2 hdrop] at hmatch
      cases hmatch

def mergeCommit (g : Git) (m : Merge) (resolution : SyncConflictResolution) : Commit :=
  ⟨(performAll g m resolution m.index m.index.conflicted).entry,
    [m.revision .ours, m.revision .theirs]⟩

theorem settleUnmergedPaths_cases (hlisted : g.fails .diff = false)
    (hasked : resolution ≠ .refuse) :
    (¬ GoesThrough g m resolution ∧ ∃ index,
        settleUnmergedPaths g m resolution = (false, ⟨index, true, []⟩)) ∨
      GoesThrough g m resolution ∧ ∃ index,
        settleUnmergedPaths g m resolution =
          (true, ⟨index, false, [mergeCommit g m resolution]⟩) := by
  rw [settleUnmergedPaths, unmergedStages]
  cases hls : g.fails .lsFiles with
  | true => exact .inl ⟨fun h => absurd hls (by simp [h.listed.2]), m.index, rfl⟩
  | false =>
    simp only [Bool.false_eq_true, if_false, List.length_map]
    by_cases hempty : m.index.conflicted.length = 0
    · rw [if_pos hempty]
      refine .inl ⟨fun h => h.unmerged ?_, m.index, rfl⟩
      rw [List.eq_nil_iff_forall_not_mem]
      intro record hrecord
      have hfile := mem_conflicted.2 ⟨record, hrecord, rfl⟩
      rw [List.length_eq_zero_iff.1 hempty] at hfile
      exact List.not_mem_nil hfile
    · rw [if_neg hempty]
      have hunmerged : m.index.unmerged ≠ [] := by
        intro hnil
        rw [Index.conflicted, hnil] at hempty
        exact hempty rfl
      rcases @settlePaths_eq g m resolution m.index m.index.conflicted with
        ⟨hacts, hok⟩ | ⟨hnot, index, herr⟩
      · rw [hok]
        simp only
        cases hwritten : g.fails .checkoutIndex with
        | true => exact .inl ⟨fun h => absurd hwritten (by simp [h.written]), _, rfl⟩
        | false =>
          cases hcommit : g.fails .commit with
          | true => exact .inl ⟨fun h => absurd hcommit (by simp [h.committed]), _, rfl⟩
          | false =>
            simp only [Bool.false_eq_true, if_false, Bool.false_or]
            by_cases hclear :
                (performAll g m resolution m.index m.index.conflicted).unmerged = []
            · rw [hclear]
              exact .inr ⟨⟨⟨hlisted, hls⟩, hunmerged, hasked, hacts,
                (unmerged_cleared hacts).1 hclear, hwritten, hcommit⟩, _, rfl⟩
            · have hleft : (!(performAll g m resolution m.index
                  m.index.conflicted).unmerged.isEmpty) = true := by
                rw [Bool.not_eq_true', List.isEmpty_eq_false_iff]
                exact hclear
              rw [hleft, if_pos rfl]
              exact .inl ⟨fun h => hclear ((unmerged_cleared hacts).2 h.cleared), _, rfl⟩
      · rw [herr]
        exact .inl ⟨fun h => hnot h.acts, index, rfl⟩

/-- **A sync that clashed** commits when every step goes through, and is aborted else. -/
theorem settleConflicts_cases (branch : String) :
    let w := (settleConflicts g m resolution branch).2
    (¬ GoesThrough g m resolution ∧ w.branch = [] ∧ w.merging = false) ∨
      GoesThrough g m resolution ∧ w.branch = [mergeCommit g m resolution] ∧
        w.merging = false := by
  rw [settleConflicts]
  cases hdiff : g.fails .diff with
  | true =>
    exact .inl ⟨fun h => absurd hdiff (by simp [h.listed.1]), rfl, rfl⟩
  | false =>
    simp only [Bool.false_eq_true, if_false]
    by_cases hempty : m.index.conflicted.length = 0
    · rw [if_pos hempty]
      refine .inl ⟨fun h => h.unmerged ?_, rfl, rfl⟩
      rw [List.eq_nil_iff_forall_not_mem]
      intro record hrecord
      have hfile := mem_conflicted.2 ⟨record, hrecord, rfl⟩
      rw [List.length_eq_zero_iff.1 hempty] at hfile
      exact List.not_mem_nil hfile
    · rw [if_neg hempty]
      by_cases hrefuse : resolution = .refuse
      · rw [if_pos hrefuse]
        exact .inl ⟨fun h => h.asked hrefuse, rfl, rfl⟩
      · rw [if_neg hrefuse]
        rcases settleUnmergedPaths_cases hdiff hrefuse with ⟨hnot, index, hw⟩ | ⟨hgo, index, hw⟩
        · rw [hw]
          exact .inl ⟨hnot, rfl, rfl⟩
        · rw [hw]
          exact .inr ⟨hgo, rfl, rfl⟩

/-! ## The commit, path by path -/

theorem choose_of_answered {file : String} {side : Side}
    (h : Answered resolution file side) : choose resolution file = some side := by
  cases resolution with
  | refuse => exact h.elim
  | preferRemote =>
    cases side with
    | ours => cases h
    | theirs => rfl
  | preferLocal =>
    cases side with
    | ours => rfl
    | theirs => cases h
  | perFile answers =>
    rw [choose]
    cases side with
    | ours =>
      have hown : answers.lookup file = some .localSide := h
      rw [hown]
    | theirs =>
      have hown : answers.lookup file = some .remoteSide := h
      rw [hown]

theorem add_chosen {file : String} {blob : Blob}
    (h : actionOn g m resolution file = some (.add blob)) :
    ∃ side mine, choose resolution file = some side ∧ m.tree side file = some mine ∧
      mine.toBlob = blob := by
  rw [actionOn] at h
  obtain ⟨side, hside, h⟩ := Option.bind_eq_some_iff.1 h
  cases hmine : treeEntry g m side file with
  | none =>
    rw [hmine] at h
    simp only at h
    split at h <;> cases h
  | some mine =>
    rw [hmine] at h
    simp only at h
    split at h
    · cases h
    · refine ⟨side, mine, hside, ?_, Action.add.inj (Option.some.inj h)⟩
      rw [treeEntry] at hmine
      split at hmine
      · cases hmine
      · exact hmine

theorem mergeCommit_tree (p : String) :
    (mergeCommit g m resolution).tree p =
      m.index.conflicted.foldl (effect g m resolution p) (m.index.entry p) :=
  entry_effects g m resolution m.index m.index.conflicted p

theorem entry_conflicted {file : String} (h : file ∈ m.index.conflicted) :
    m.index.entry file = none := by
  obtain ⟨record, hrecord, rfl⟩ := mem_conflicted.1 h
  exact m.apart record hrecord

theorem conflicted_nodup : m.index.conflicted.Nodup := unique_nodup _

theorem dropped_tree {file : String} (hfile : file ∈ m.index.conflicted)
    (hdrop : actionOn g m resolution file = some .drop) :
    (mergeCommit g m resolution).tree file = none := by
  rw [mergeCommit_tree, entry_conflicted hfile]
  have hnot : ∀ blob, file ∈ m.index.conflicted →
      actionOn g m resolution file ≠ some (.add blob) := by
    intro blob _ hadd
    rw [hdrop] at hadd
    cases hadd
  rcases effects_not_added hnot with ⟨hnone, -⟩ | ⟨hheld, -⟩
  · exact hnone
  · exact hheld

theorem others_tree {file : String} (hfile : file ∉ m.index.conflicted) :
    (mergeCommit g m resolution).tree file = none ∧ (∃ other ∈ m.index.conflicted,
        actionOn g m resolution other = some .drop ∧ g.pathspec other file = true) ∨
      (mergeCommit g m resolution).tree file = m.index.entry file ∧
        ∀ other ∈ m.index.conflicted, actionOn g m resolution other = some .drop →
          g.pathspec other file = false := by
  rw [mergeCommit_tree]
  exact effects_not_added fun _ hmem => absurd hmem hfile

theorem added_tree {before behind : List String} {file : String} {blob : Blob}
    (hsplit : m.index.conflicted = before ++ file :: behind)
    (hadd : actionOn g m resolution file = some (.add blob)) :
    (mergeCommit g m resolution).tree file = none ∧ (∃ other ∈ behind,
        actionOn g m resolution other = some .drop ∧ g.pathspec other file = true) ∨
      (mergeCommit g m resolution).tree file = some blob ∧
        ∀ other ∈ behind, actionOn g m resolution other = some .drop →
          g.pathspec other file = false := by
  have hnodup := @conflicted_nodup m
  rw [hsplit, List.nodup_append] at hnodup
  rw [mergeCommit_tree, hsplit]
  exact effects_added hadd (List.nodup_cons.1 hnodup.2.1).1

theorem honest_of_takes (h : Takes m resolution (mergeCommit g m resolution)) :
    Honest g m resolution := by
  refine ⟨fun file hfile => ?_, fun file hfile hdrop side hside => ?_,
    fun before file behind hsplit hdrop other hmatch => ⟨?_, ?_⟩⟩
  · obtain ⟨side, hanswered, -⟩ := h.answered file hfile
    exact ⟨side, hanswered⟩
  · obtain ⟨answered, hanswered, htree⟩ := h.answered file hfile
    rw [choose_of_answered hanswered] at hside
    cases hside
    rw [dropped_tree hfile hdrop] at htree
    exact Option.map_eq_none_iff.1 htree.symm
  · have hfile : file ∈ m.index.conflicted := by
      rw [hsplit]
      exact List.mem_append_right _ List.mem_cons_self
    by_cases hother : other ∈ m.index.conflicted
    · exact entry_conflicted hother
    · rw [← h.others other hother]
      rcases others_tree hother with ⟨hnone, -⟩ | ⟨-, hapart⟩
      · exact hnone
      · rw [hapart file hfile hdrop] at hmatch
        cases hmatch
  · rintro ⟨hbefore, blob, hadd⟩
    -- the path was added before, and is dropped by the other's pathspec
    obtain ⟨front, between, rfl⟩ := List.append_of_mem hbefore
    have hsplit' : m.index.conflicted = front ++ other :: (between ++ file :: behind) := by
      rw [hsplit, List.append_assoc, List.cons_append]
    rcases added_tree hsplit' hadd with ⟨hnone, -⟩ | ⟨-, hapart⟩
    · obtain ⟨side, mine, hside, htree, -⟩ := add_chosen hadd
      have hother : other ∈ m.index.conflicted := by
        rw [hsplit']
        exact List.mem_append_right _ List.mem_cons_self
      obtain ⟨answered, hanswered, hcommit⟩ := h.answered other hother
      rw [choose_of_answered hanswered] at hside
      cases hside
      rw [hnone, htree] at hcommit
      cases hcommit
    · rw [hapart file (List.mem_append_right _ List.mem_cons_self) hdrop] at hmatch
      cases hmatch

theorem takes_of_honest (hgo : GoesThrough g m resolution) (h : Honest g m resolution) :
    Takes m resolution (mergeCommit g m resolution) := by
  refine ⟨rfl, fun file hfile => ?_, fun file hfile => ?_⟩
  · obtain ⟨side, hanswered⟩ := h.answered file hfile
    have hside := choose_of_answered hanswered
    refine ⟨side, hanswered, ?_⟩
    obtain ⟨action, haction, -⟩ := hgo.acts file hfile
    cases action with
    | drop =>
      rw [dropped_tree hfile haction, h.absent file hfile haction side hside, Option.map_none]
    | add blob =>
      obtain ⟨before, behind, hsplit⟩ := List.append_of_mem hfile
      rcases added_tree hsplit haction with ⟨-, other, hother, hdrop, hmatch⟩ | ⟨htree, -⟩
      · obtain ⟨between, rest, rfl⟩ := List.append_of_mem hother
        have hsplit' : m.index.conflicted = (before ++ file :: between) ++ other :: rest := by
          rw [hsplit, List.append_assoc, List.cons_append]
        exact absurd ⟨List.mem_append_right _ List.mem_cons_self, blob, haction⟩
          (h.alone _ other rest hsplit' hdrop file hmatch).2
      · obtain ⟨chosen, mine, hchosen, hmine, rfl⟩ := add_chosen haction
        rw [hside] at hchosen
        cases hchosen
        rw [htree, hmine, Option.map_some]
  · rcases others_tree hfile with ⟨hnone, other, hother, hdrop, hmatch⟩ | ⟨hheld, -⟩
    · obtain ⟨before, behind, hsplit⟩ := List.append_of_mem hother
      rw [hnone, (h.alone before other behind hsplit hdrop file hmatch).1]
    · exact hheld

end

/-- A git in which nothing fails and a pathspec matches its own path. -/
def plainGit : Git := ⟨fun _ => false, fun spec file => spec == file⟩

def clashIndex (file : String) : Index :=
  ⟨[("kept.ts", ⟨"100644", "k"⟩)], [⟨"100644", "b", 1, file⟩, ⟨"100644", "o", 2, file⟩,
    ⟨"100644", "t", 3, file⟩]⟩

theorem clashIndex_apart : ∀ record ∈ (clashIndex "constructor").unmerged,
    (clashIndex "constructor").entry record.file = none := by decide +kernel

/-- Both sides changed a file of the name `constructor`. -/
def clash : Merge where
  tree side file :=
    if file = "constructor" then
      match side with
      | .ours => some ⟨⟨"100644", "o"⟩, .blob⟩
      | .theirs => some ⟨⟨"100644", "t"⟩, .blob⟩
    else if file = "kept.ts" then some ⟨⟨"100644", "k"⟩, .blob⟩
    else none
  revision
    | .ours => "ours"
    | .theirs => "theirs"
  index := clashIndex "constructor"
  apart := clashIndex_apart

end AgenticGit.Repository.Settled
