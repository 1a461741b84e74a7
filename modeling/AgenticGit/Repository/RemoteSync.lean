import Mathlib.Logic.Function.Basic
import Mathlib.Logic.Relation
import AgenticGit.Lib.Runs
import AgenticGit.Repository.SettledMerge

/- Syncing a branch with its remote: `syncFromRemote` and `mergeUpstream` of
   `repository-service.ts`, by any number of processes, while others promote.

   Git is outside the source: `History` has what the commits are and what is documented of
   the commands. Between two steps of a sync anything may happen to the branch.

   Correspondence (TypeScript ↔ Lean):
     `refs/heads/<branch>`                 ↔ `State.branch`
     `refs/coord/upstream/<branch>`        ↔ `State.upstreamRef`
     a sync between two of its commands    ↔ `Phase`
     the two `rev-parse` of `syncFromRemote` ↔ `.readUpstream`, `.readBranch`
     a promotion                           ↔ `.promoted`
     what a person saw of a clash          ↔ `Clash.described`
   The worktree's HEAD is attached to the branch: a commit in it is made on whatever the
   branch is at that moment.

   What is proved:
     1. `settles_takes` — a merge that is settled on the commit it was made on takes the
        sides that were answered.
     2. `follows_commit` — a commit on the commit that was merged replaces nothing but what
        upstream changed, and of a clashing file what was described.
     3. `sync_keeps_promotions` — **in an orderly run every promotion is an ancestor of every
        later tip, and its files are the tip's unless a later move replaced them.**
     4. `sync_reverts` — a promotion between a merge and its commit is reverted. -/
namespace AgenticGit.Repository.RemoteSync
open AgenticGit.Runs AgenticGit.Repository.Settled

/-! ## Commits -/

/-- What a tree holds of a file; a directory is none. -/
def fileOf (entry : Option TreeEntry) : Option Blob :=
  entry.bind fun entry => if entry.type = .tree then none else some entry.toBlob

/-- A merge in the index, before it is committed. -/
structure Standing where
  index : Index
  /-- A path is merged or in stages. -/
  apart : ∀ record ∈ index.unmerged, index.entry record.file = none

structure History (Rev : Type) where
  text : Rev → String
  parents : Rev → List Rev
  tree : Rev → String → Option TreeEntry
  /-- `merge-base --is-ancestor`. -/
  isAncestor : Rev → Rev → Bool
  /-- What the merge base of two commits holds of a file. -/
  base : Rev → Rev → String → Option Blob
  /-- `git merge` of HEAD and another commit; none when it fails before the index. -/
  merge : Rev → Rev → Option Standing
  /-- Whether the index of one commit has no changes relative to another. -/
  sameTree : Rev → Rev → Bool
  /-- The commit of an index on HEAD and what is merged into it. -/
  commit : List (String × Blob) → Rev → Rev → Rev
  isAncestor_iff : ∀ a b,
    isAncestor a b = true ↔ Relation.ReflTransGen (fun p c => p ∈ parents c) a b
  /-- A file that only one side changed is merged as that side has it. -/
  merge_ours : ∀ ours theirs standing, merge ours theirs = some standing →
    ∀ p, p ∉ standing.index.conflicted → fileOf (tree theirs p) = base ours theirs p →
      standing.index.entry p = fileOf (tree ours p)
  parents_commit : ∀ merged ours theirs, parents (commit merged ours theirs) = [ours, theirs]
  tree_commit : ∀ merged ours theirs p,
    fileOf (tree (commit merged ours theirs) p) = merged.lookup p

section

variable {Rev : Type} (h : History Rev)

def History.files (r : Rev) (p : String) : Option Blob := fileOf (h.tree r p)

def History.Ancestor : Rev → Rev → Prop :=
  Relation.ReflTransGen fun p c => p ∈ h.parents c

/-- The merge as the worktree has it while HEAD is `ours`. -/
def History.mergeOf (ours theirs : Rev) (standing : Standing) : Merge where
  tree
    | .ours => h.tree ours
    | .theirs => h.tree theirs
  revision
    | .ours => h.text ours
    | .theirs => h.text theirs
  index := standing.index
  apart := standing.apart

end

/-! ## The steps of a sync -/

/-- A clash that was settled, and what the person who chose the sides had been shown: of
each file ours and theirs. -/
structure Clash where
  index : Index
  resolution : SyncConflictResolution
  described : String → Option (Option Blob × Option Blob)

inductive Phase (Rev : Type) where
  | fetched (upstream previous : Option Rev)
  | forwards (upstream previous : Rev)
  | diverged
  /-- The worktree has the files of a commit. -/
  | checkedOut (files : Rev)
  | clashed (upstream merged : Rev) (standing : Standing)
  /-- The index is ready to be committed: a merge of the commit with upstream. -/
  | staged (upstream merged : Rev) (index : List (String × Blob)) (clash : Option Clash)
  | done

inductive Means (Rev : Type) where
  | promoted
  | fastForwarded
  | merged (upstream : Rev) (clash : Option Clash)

structure Move (Rev : Type) where
  source : Rev
  target : Rev
  means : Means Rev

structure State (Rev : Type) where
  branch : Rev
  upstreamRef : Option Rev := none
  syncs : Nat → Option (Phase Rev) := fun _ => none
  /-- What became of the branch, the last move first. -/
  moves : List (Move Rev) := []

inductive Event (Rev : Type) where
  /-- Another process promotes a commit it made on what the branch is. -/
  | promoted (candidate : Rev)
  | fetched (n : Nat) (upstream : Rev)
  | readUpstream (n : Nat)
  | readBranch (n : Nat)
  | compared (n : Nat)
  | fastForwarded (n : Nat)
  | checkedOut (n : Nat)
  | merged (n : Nat)
  | settled (n : Nat) (git : Git) (resolution : SyncConflictResolution)
    (described : String → Option (Option Blob × Option Blob))
  | committed (n : Nat)
  /-- The sync returns or fails, and its fetched ref is deleted. -/
  | ended (n : Nat)

section

variable {Rev : Type} (h : History Rev)

def State.enter (s : State Rev) (n : Nat) (phase : Phase Rev) : State Rev :=
  { s with syncs := Function.update s.syncs n (some phase) }

def State.moveTo (s : State Rev) (target : Rev) (means : Means Rev) : State Rev :=
  { s with branch := target, moves := ⟨s.branch, target, means⟩ :: s.moves }

/-- `git merge` in the worktree: it wants an index without changes, and has nothing to do
for a commit that HEAD has. -/
def runMerge (head files upstream : Rev) : Phase Rev :=
  if h.isAncestor upstream head then .done
  else if h.sameTree files head then
    match h.merge head upstream with
    | none => .done
    | some standing =>
      if standing.index.conflicted = [] then .staged upstream head standing.index.merged none
      else .clashed upstream head standing
  else .done

/-- The clashing files, settled from what HEAD and upstream hold, up to the commit. -/
def settleClash (git : Git) (head upstream merged : Rev) (standing : Standing)
    (resolution : SyncConflictResolution)
    (described : String → Option (Option Blob × Option Blob)) : Phase Rev :=
  match settleUnmergedPaths git (h.mergeOf head upstream standing) resolution with
  | (true, worktree) =>
    if resolution = .refuse ∨ git.fails .diff = true then .done
    else .staged upstream merged worktree.index.merged
      (some ⟨standing.index, resolution, described⟩)
  | _ => .done

variable [DecidableEq Rev]

def step (s : State Rev) : Event Rev → Option (State Rev)
  | .promoted candidate =>
    if h.parents candidate = [s.branch] then some (s.moveTo candidate .promoted) else none
  | .fetched n upstream =>
    some { s.enter n (.fetched none none) with upstreamRef := some upstream }
  | .readUpstream n =>
    match s.syncs n, s.upstreamRef with
    | some (.fetched _ previous), some upstream => some (s.enter n (.fetched upstream previous))
    | _, _ => none
  | .readBranch n =>
    match s.syncs n with
    | some (.fetched upstream _) => some (s.enter n (.fetched upstream s.branch))
    | _ => none
  | .compared n =>
    match s.syncs n with
    | some (.fetched (some upstream) (some previous)) =>
      some (s.enter n
        (if h.isAncestor upstream previous then .done
        else if h.isAncestor previous upstream then .forwards upstream previous
        else .diverged))
    | _ => none
  | .fastForwarded n =>
    match s.syncs n with
    | some (.forwards upstream previous) =>
      if s.branch = previous then some ((s.moveTo upstream .fastForwarded).enter n .done)
      else some (s.enter n .done)
    | _ => none
  | .checkedOut n =>
    match s.syncs n with
    | some .diverged => some (s.enter n (.checkedOut s.branch))
    | _ => none
  | .merged n =>
    match s.syncs n, s.upstreamRef with
    | some (.checkedOut files), some upstream =>
      some (s.enter n (runMerge h s.branch files upstream))
    | some (.checkedOut _), none => some (s.enter n .done)
    | _, _ => none
  | .settled n git resolution described =>
    match s.syncs n with
    | some (.clashed upstream merged standing) =>
      some (s.enter n (settleClash h git s.branch upstream merged standing resolution described))
    | _ => none
  | .committed n =>
    match s.syncs n with
    | some (.staged upstream _ index clash) =>
      some ((s.moveTo (h.commit index s.branch upstream) (.merged upstream clash)).enter n .done)
    | _ => none
  | .ended n =>
    some { s with upstreamRef := none, syncs := Function.update s.syncs n none }

end

/-! ## What a move replaces -/

section

variable {Rev : Type} (h : History Rev)

def Clashes (clash : Option Clash) (p : String) : Prop :=
  ∃ settled ∈ clash, p ∈ settled.index.conflicted

/-- The move replaces a file: it is a later promotion of it; or upstream changed it, and
it is what git merged of the tip's and upstream's; or it clashed, and it is upstream's,
chosen as the two sides had been described. -/
def Replaces (move : Move Rev) (p : String) : Prop :=
  match move.means with
  | .promoted => h.files move.target p ≠ h.files move.source p
  | .fastForwarded => h.files move.target p ≠ h.files move.source p
  | .merged upstream clash =>
    (¬Clashes clash p ∧ h.files upstream p ≠ h.base move.source upstream p ∧
        ∃ standing, h.merge move.source upstream = some standing ∧
          h.files move.target p = standing.index.entry p) ∨
      ∃ settled ∈ clash, p ∈ settled.index.conflicted ∧
        Answered settled.resolution p .theirs ∧ h.files move.target p = h.files upstream p ∧
        settled.described p = some (h.files move.source p, h.files upstream p)

/-- A move that loses nothing: its source is an ancestor, and every file is as it was,
or replaced. -/
structure Follows (move : Move Rev) : Prop where
  ancestor : h.Ancestor move.source move.target
  files : ∀ p, h.files move.target p = h.files move.source p ∨ Replaces h move p

/-- The moves lead to the tip, one on the other, and lose nothing. -/
def Traced : Rev → List (Move Rev) → Prop
  | _, [] => True
  | tip, move :: moves => move.target = tip ∧ Follows h move ∧ Traced move.source moves

/-- Every promotion is in what the branch has become. -/
def KeepsPromotions (s : State Rev) : Prop :=
  ∀ later move earlier, s.moves = later ++ move :: earlier → move.means = .promoted →
    h.Ancestor move.target s.branch ∧
      ∀ p, h.files s.branch p = h.files move.target p ∨ ∃ other ∈ later, Replaces h other p

variable {h}

theorem Traced.split {tip : Rev} {later earlier : List (Move Rev)} {move : Move Rev}
    (ht : Traced h tip (later ++ move :: earlier)) :
    h.Ancestor move.target tip ∧
      ∀ p, h.files tip p = h.files move.target p ∨ ∃ other ∈ later, Replaces h other p := by
  induction later generalizing tip with
  | nil =>
    obtain ⟨rfl, -, -⟩ := ht
    exact ⟨.refl, fun _ => .inl rfl⟩
  | cons first later ih =>
    obtain ⟨rfl, hfollows, hrest⟩ := ht
    obtain ⟨hancestor, hfiles⟩ := ih hrest
    refine ⟨hancestor.trans hfollows.ancestor, fun p => ?_⟩
    rcases hfollows.files p with hsame | hreplaces
    · rcases hfiles p with hkept | ⟨other, hother, hreplaces⟩
      · exact .inl (hsame.trans hkept)
      · exact .inr ⟨other, List.mem_cons_of_mem _ hother, hreplaces⟩
    · exact .inr ⟨first, List.mem_cons_self, hreplaces⟩

end

/-! ## The index that is committed -/

section

variable {Rev : Type} {h : History Rev}

/-- What is known of an index that a merge of `merged` with upstream left to commit. -/
structure Staged (h : History Rev) (upstream merged : Rev) (index : List (String × Blob))
    (clash : Option Clash) : Prop where
  /-- A file that clashed is the chosen side's, and upstream's only as it was described. -/
  clashed : ∀ settled ∈ clash, ∀ p ∈ settled.index.conflicted, ∃ side,
    Answered settled.resolution p side ∧
      (side = .ours → index.lookup p = h.files merged p) ∧
      (side = .theirs → index.lookup p = h.files upstream p ∧
        settled.described p = some (h.files merged p, h.files upstream p))
  /-- The rest is as git merged it. -/
  others : ∃ standing, h.merge merged upstream = some standing ∧ ∀ p, ¬Clashes clash p →
    p ∉ standing.index.conflicted ∧ index.lookup p = standing.index.entry p

/-- **A commit on the commit that was merged loses nothing.** -/
theorem follows_commit {upstream merged : Rev} {index : List (String × Blob)}
    {clash : Option Clash} (hs : Staged h upstream merged index clash) :
    Follows h ⟨merged, h.commit index merged upstream, .merged upstream clash⟩ where
  ancestor := by
    refine .single ?_
    rw [h.parents_commit]
    exact List.mem_cons_self
  files p := by
    have hcommit : h.files (h.commit index merged upstream) p = index.lookup p :=
      h.tree_commit index merged upstream p
    unfold Replaces
    rw [hcommit]
    by_cases hp : Clashes clash p
    · obtain ⟨settled, hclash, hconflicted⟩ := hp
      obtain ⟨side, hanswered, hours, htheirs⟩ := hs.clashed settled hclash p hconflicted
      cases side with
      | ours => exact .inl (hours rfl)
      | theirs =>
        obtain ⟨hfile, hdescribed⟩ := htheirs rfl
        exact .inr (.inr ⟨settled, hclash, hconflicted, hanswered, hfile, hdescribed⟩)
    · obtain ⟨standing, hmerge, hothers⟩ := hs.others
      obtain ⟨hclean, hentry⟩ := hothers p hp
      by_cases hsame : h.files upstream p = h.base merged upstream p
      · exact .inl (hentry.trans (h.merge_ours merged upstream standing hmerge p hclean hsame))
      · exact .inr (.inl ⟨hp, hsame, standing, hmerge, hentry⟩)

variable {m : Merge} {resolution : SyncConflictResolution} {worktree : Worktree}

theorem add_file {g : Git} {file : String} {blob : Blob}
    (hadd : actionOn g m resolution file = some (.add blob)) :
    ∃ side, choose resolution file = some side ∧ fileOf (m.tree side file) = some blob := by
  rw [actionOn] at hadd
  obtain ⟨side, hside, hadd⟩ := Option.bind_eq_some_iff.1 hadd
  refine ⟨side, hside, ?_⟩
  cases hmine : treeEntry g m side file with
  | none =>
    rw [hmine] at hadd
    simp only at hadd
    split at hadd <;> cases hadd
  | some mine =>
    rw [hmine] at hadd
    simp only at hadd
    split at hadd
    · cases hadd
    · rename_i htype
      rw [treeEntry] at hmine
      split at hmine
      · cases hmine
      · rw [hmine, fileOf, Option.bind_some, if_neg]
        · exact congrArg some (Action.add.inj (Option.some.inj hadd))
        · intro htree
          rw [htree] at htype
          exact htype (by decide)

theorem settled_index {git : Git}
    (hsettled : settleUnmergedPaths git m resolution = (true, worktree)) :
    ∃ commit, worktree.branch = [commit] ∧ commit.tree = worktree.index.entry := by
  unfold settleUnmergedPaths at hsettled
  split at hsettled
  · cases hsettled
  · split at hsettled
    · cases hsettled
    · split at hsettled
      · cases hsettled
      · split at hsettled
        · cases hsettled
        · split at hsettled
          · cases hsettled
          · obtain ⟨-, rfl⟩ := Prod.mk.inj hsettled
            exact ⟨_, rfl, rfl⟩

theorem fileOf_some {entry : Option TreeEntry} {blob : Blob} (hfile : fileOf entry = some blob) :
    entry.map TreeEntry.toBlob = some blob := by
  obtain ⟨mine, rfl, hmine⟩ := Option.bind_eq_some_iff.1 hfile
  split at hmine
  · cases hmine
  · exact hmine

/-- **A settled merge takes the sides that were answered**, file by file. -/
theorem settles_takes {git : Git}
    (hsettled : settleUnmergedPaths git m resolution = (true, worktree))
    (hdiff : git.fails .diff = false) (hasked : resolution ≠ .refuse)
    (hhonest : Honest git m resolution) :
    (∀ p ∈ m.index.conflicted, ∃ side, Answered resolution p side ∧
        worktree.index.entry p = fileOf (m.tree side p)) ∧
      ∀ p, p ∉ m.index.conflicted → worktree.index.entry p = m.index.entry p := by
  rcases settleUnmergedPaths_cases hdiff hasked with ⟨-, index, hfailed⟩ | ⟨hgo, index, hdone⟩
  · rw [hsettled] at hfailed
    cases hfailed
  · obtain ⟨commit, hbranch, htree⟩ := settled_index hsettled
    obtain ⟨-, rfl⟩ := Prod.mk.inj (hsettled.symm.trans hdone)
    obtain rfl : mergeCommit git m resolution = commit := (List.cons.inj hbranch).1
    obtain ⟨-, hanswers, hothers⟩ := takes_of_honest hgo hhonest
    rw [← htree]
    refine ⟨fun p hp => ?_, hothers⟩
    obtain ⟨side, hanswered, hside⟩ := hanswers p hp
    have hchosen := choose_of_answered hanswered
    refine ⟨side, hanswered, hside.trans ?_⟩
    obtain ⟨action, haction, -⟩ := hgo.acts p hp
    cases action with
    | drop =>
      rw [hhonest.absent p hp haction side hchosen, Option.map_none, fileOf, Option.bind_none]
    | add blob =>
      obtain ⟨other, hother, hfile⟩ := add_file haction
      obtain rfl := Option.some.inj (hchosen.symm.trans hother)
      rw [hfile, fileOf_some hfile]

end

/-! ## Orderly runs -/

section

variable {Rev : Type} (h : History Rev)

/-- A step that is taken in order: from its merge to its commit a sync finds the branch
where it was, and what it settles is settled right, a file for upstream only as it had
been described. -/
def Orderly (s : State Rev) : Event Rev → Prop
  | .settled n git resolution described => ∀ upstream merged standing,
    s.syncs n = some (.clashed upstream merged standing) →
      s.branch = merged ∧ Honest git (h.mergeOf merged upstream standing) resolution ∧
        ∀ p ∈ standing.index.conflicted, Answered resolution p .theirs →
          described p = some (h.files merged p, h.files upstream p)
  | .committed n => ∀ upstream merged index clash,
    s.syncs n = some (.staged upstream merged index clash) → s.branch = merged
  | _ => True

/-- What is known of a sync between two of its commands. -/
def Phase.Known : Phase Rev → Prop
  | .forwards upstream previous => h.Ancestor previous upstream
  | .clashed upstream merged standing => h.merge merged upstream = some standing
  | .staged upstream merged index clash => Staged h upstream merged index clash
  | _ => True

structure Kept (s : State Rev) : Prop where
  traced : Traced h s.branch s.moves
  known : ∀ n phase, s.syncs n = some phase → phase.Known h

variable {h}

theorem Kept.enter {s : State Rev} (hs : Kept h s) (n : Nat) {phase : Phase Rev}
    (hphase : phase.Known h) : Kept h (s.enter n phase) where
  traced := hs.traced
  known m other hother := by
    by_cases hm : m = n
    · subst hm
      simp only [State.enter, Function.update_self, Option.some.injEq] at hother
      exact hother ▸ hphase
    · simp only [State.enter, Function.update_of_ne hm] at hother
      exact hs.known m other hother

theorem Kept.moveTo {s : State Rev} (hs : Kept h s) {target : Rev} {means : Means Rev}
    (hfollows : Follows h ⟨s.branch, target, means⟩) : Kept h (s.moveTo target means) where
  traced := ⟨rfl, hfollows, hs.traced⟩
  known := hs.known

theorem follows_whole {source target : Rev} {means : Means Rev}
    (hancestor : h.Ancestor source target) (hmeans : means = .promoted ∨ means = .fastForwarded) :
    Follows h ⟨source, target, means⟩ where
  ancestor := hancestor
  files p := by
    by_cases hsame : h.files target p = h.files source p
    · exact .inl hsame
    · rcases hmeans with rfl | rfl
      · exact .inr hsame
      · exact .inr hsame

theorem runMerge_known (head files upstream : Rev) :
    (runMerge h head files upstream).Known h := by
  unfold runMerge
  split
  · trivial
  · split
    · split
      · trivial
      · rename_i standing hmerge
        split
        · rename_i hnone
          refine ⟨?_, standing, hmerge, fun p _ => ⟨?_, rfl⟩⟩
          · intro settled hclash
            cases hclash
          · rw [hnone]
            exact List.not_mem_nil
        · exact hmerge
    · trivial

theorem settleClash_known {git : Git} {upstream merged : Rev} {standing : Standing}
    {resolution : SyncConflictResolution}
    {described : String → Option (Option Blob × Option Blob)}
    (hmerge : h.merge merged upstream = some standing)
    (hhonest : Honest git (h.mergeOf merged upstream standing) resolution)
    (hdescribed : ∀ p ∈ standing.index.conflicted, Answered resolution p .theirs →
      described p = some (h.files merged p, h.files upstream p)) :
    (settleClash h git merged upstream merged standing resolution described).Known h := by
  unfold settleClash
  split
  · rename_i worktree hsettled
    split
    · trivial
    · rename_i hgoes
      rw [not_or] at hgoes
      obtain ⟨hclashed, hothers⟩ :=
        settles_takes hsettled (Bool.eq_false_iff.2 hgoes.2) hgoes.1 hhonest
      refine ⟨?_, standing, hmerge, fun p hp => ?_⟩
      · intro settled hclash p hp
        obtain rfl := Option.some.inj hclash
        obtain ⟨side, hanswered, hfile⟩ := hclashed p hp
        refine ⟨side, hanswered, ?_, ?_⟩
        · rintro rfl
          exact hfile
        · rintro rfl
          exact ⟨hfile, hdescribed p hp hanswered⟩
      · have hclean : p ∉ standing.index.conflicted := fun hin => hp ⟨_, rfl, hin⟩
        exact ⟨hclean, hothers p hclean⟩
  · trivial

variable [DecidableEq Rev]

/-- **What an orderly step keeps.** -/
theorem kept_step {s t : State Rev} {event : Event Rev} (hs : Kept h s)
    (horderly : Orderly h s event) (hstep : step h s event = some t) : Kept h t := by
  cases event with
  | promoted candidate =>
    simp only [step] at hstep
    split at hstep
    · rename_i hparents
      obtain rfl := Option.some.inj hstep
      refine hs.moveTo (follows_whole (.single ?_) (.inl rfl))
      rw [hparents]
      exact List.mem_cons_self
    · cases hstep
  | fetched n upstream =>
    obtain rfl := Option.some.inj hstep
    have hphase : (Phase.fetched none none : Phase Rev).Known h := trivial
    exact ⟨(hs.enter n hphase).traced, (hs.enter n hphase).known⟩
  | readUpstream n =>
    simp only [step] at hstep
    split at hstep
    · obtain rfl := Option.some.inj hstep
      exact hs.enter n trivial
    · cases hstep
  | readBranch n =>
    simp only [step] at hstep
    split at hstep
    · obtain rfl := Option.some.inj hstep
      exact hs.enter n trivial
    · cases hstep
  | compared n =>
    simp only [step] at hstep
    split at hstep
    · rename_i upstream previous _
      obtain rfl := Option.some.inj hstep
      refine hs.enter n ?_
      split
      · trivial
      · split
        · rename_i hancestor
          exact (h.isAncestor_iff previous upstream).1 hancestor
        · trivial
    · cases hstep
  | fastForwarded n =>
    simp only [step] at hstep
    split at hstep
    · rename_i upstream previous hphase
      split at hstep
      · rename_i hbranch
        obtain rfl := Option.some.inj hstep
        have hknown : h.Ancestor previous upstream := hs.known n _ hphase
        exact (hs.moveTo (follows_whole (hbranch ▸ hknown) (.inr rfl))).enter n trivial
      · obtain rfl := Option.some.inj hstep
        exact hs.enter n trivial
    · cases hstep
  | checkedOut n =>
    simp only [step] at hstep
    split at hstep
    · obtain rfl := Option.some.inj hstep
      exact hs.enter n trivial
    · cases hstep
  | merged n =>
    simp only [step] at hstep
    split at hstep
    · obtain rfl := Option.some.inj hstep
      exact hs.enter n (runMerge_known _ _ _)
    · obtain rfl := Option.some.inj hstep
      exact hs.enter n trivial
    · cases hstep
  | settled n git resolution described =>
    simp only [step] at hstep
    split at hstep
    · rename_i upstream merged standing hphase
      obtain rfl := Option.some.inj hstep
      obtain ⟨hbranch, hhonest, hdescribed⟩ := horderly upstream merged standing hphase
      refine hs.enter n ?_
      rw [hbranch]
      exact settleClash_known (hs.known n _ hphase) hhonest hdescribed
    · cases hstep
  | committed n =>
    simp only [step] at hstep
    split at hstep
    · rename_i upstream merged index clash hphase
      obtain rfl := Option.some.inj hstep
      obtain rfl := horderly upstream merged index clash hphase
      have hstaged : Staged h upstream s.branch index clash := hs.known n _ hphase
      exact (hs.moveTo (follows_commit hstaged)).enter n trivial
    · cases hstep
  | ended n =>
    obtain rfl := Option.some.inj hstep
    refine ⟨hs.traced, fun m phase hphase => ?_⟩
    by_cases hm : m = n
    · subst hm
      simp only [Function.update_self, reduceCtorEq] at hphase
    · simp only [Function.update_of_ne hm] at hphase
      exact hs.known m phase hphase

/-- **Syncing with the remote loses no promotion.** In every orderly run a promotion is an
ancestor of every later tip, and each file the tip holds is the promotion's, or replaced
by a later move. -/
theorem sync_keeps_promotions {start : Rev} {events : List (Event Rev)} {s : State Rev}
    (horderly : Throughout (step h) (Orderly h) { branch := start } events)
    (hrun : run (step h) { branch := start } events = some s) : KeepsPromotions h s := by
  have hstart : Kept h { branch := start } :=
    ⟨show Traced h start [] from trivial, fun n phase hphase => by cases hphase⟩
  have hkept : Kept h s :=
    run_invariant (fun _ _ _ hs hok hstep => kept_step hs hok hstep) hstart horderly hrun
  intro later move earlier hmoves _
  have htraced := hkept.traced
  rw [hmoves] at htraced
  exact htraced.split

end

/-! ## A shop -/

/-- A commit, with what it holds and what it was made on. -/
inductive Snapshot where
  | root (files : List (String × Blob))
  | child (files : List (String × Blob)) (parent : Snapshot)
  | join (files : List (String × Blob)) (ours theirs : Snapshot)
  deriving DecidableEq

def Snapshot.files : Snapshot → List (String × Blob)
  | .root files => files
  | .child files _ => files
  | .join files _ _ => files

def Snapshot.parents : Snapshot → List Snapshot
  | .root _ => []
  | .child _ parent => [parent]
  | .join _ ours theirs => [ours, theirs]

def Snapshot.isIn (a : Snapshot) : Snapshot → Bool
  | .root files => decide (a = .root files)
  | .child files parent => decide (a = .child files parent) || a.isIn parent
  | .join files ours theirs => decide (a = .join files ours theirs) || a.isIn ours || a.isIn theirs

theorem Snapshot.isIn_parent {a parent c : Snapshot} (hparent : parent ∈ c.parents)
    (hin : a.isIn parent = true) : a.isIn c = true := by
  cases c with
  | root files => cases hparent
  | child files other =>
    obtain rfl := List.mem_singleton.1 hparent
    rw [Snapshot.isIn, hin, Bool.or_true]
  | join files ours theirs =>
    rcases List.mem_pair.1 hparent with rfl | rfl
    · rw [Snapshot.isIn, hin, Bool.or_true, Bool.true_or]
    · rw [Snapshot.isIn, hin, Bool.or_true]

theorem Snapshot.isIn_iff (a b : Snapshot) :
    a.isIn b = true ↔ Relation.ReflTransGen (fun p c => p ∈ Snapshot.parents c) a b := by
  constructor
  · intro hin
    induction b with
    | root files =>
      obtain rfl := of_decide_eq_true hin
      exact .refl
    | child files parent ih =>
      rcases Bool.or_eq_true_iff.1 hin with hsame | hin
      · obtain rfl := of_decide_eq_true hsame
        exact .refl
      · exact (ih hin).tail List.mem_cons_self
    | join files ours theirs ihours ihtheirs =>
      rcases Bool.or_eq_true_iff.1 hin with hin | hin
      · rcases Bool.or_eq_true_iff.1 hin with hsame | hin
        · obtain rfl := of_decide_eq_true hsame
          exact .refl
        · exact (ihours hin).tail List.mem_cons_self
      · exact (ihtheirs hin).tail (List.mem_cons_of_mem _ List.mem_cons_self)
  · intro hreach
    induction hreach with
    | refl => cases a <;> simp [Snapshot.isIn]
    | tail _ hparent ih => exact Snapshot.isIn_parent hparent ih

def shop : Snapshot := .root [("cart.ts", ⟨"100644", "c0"⟩), ("tax.ts", ⟨"100644", "t0"⟩)]

/-- Upstream changed `tax.ts`. -/
def upstreamTax : Snapshot :=
  .child [("cart.ts", ⟨"100644", "c0"⟩), ("tax.ts", ⟨"100644", "t2"⟩)] shop

def promotedTax : Snapshot :=
  .child [("cart.ts", ⟨"100644", "c0"⟩), ("tax.ts", ⟨"100644", "t1"⟩)] shop

/-- The next one changes `cart.ts`. -/
def promotedCart : Snapshot :=
  .child [("cart.ts", ⟨"100644", "c1"⟩), ("tax.ts", ⟨"100644", "t1"⟩)] promotedTax

def taxIndex : Index where
  merged := [("cart.ts", ⟨"100644", "c0"⟩)]
  unmerged := [⟨"100644", "t0", 1, "tax.ts"⟩, ⟨"100644", "t1", 2, "tax.ts"⟩,
    ⟨"100644", "t2", 3, "tax.ts"⟩]

theorem taxIndex_apart : ∀ record ∈ taxIndex.unmerged, taxIndex.entry record.file = none := by
  decide

/-- The two clash in `tax.ts`. -/
def taxClash : Standing := ⟨taxIndex, taxIndex_apart⟩

theorem taxClash_ours (p : String) (hp : p ∉ taxClash.index.conflicted) :
    taxClash.index.entry p = promotedTax.files.lookup p := by
  have hne : p ≠ "tax.ts" := fun h => hp (h ▸ by decide)
  have hbeq : (p == "tax.ts") = false := beq_eq_false_iff_ne.2 hne
  simp [taxClash, taxIndex, Index.entry, promotedTax, Snapshot.files, List.lookup_cons, hbeq]

def treeOf (r : Snapshot) (p : String) : Option TreeEntry :=
  (r.files.lookup p).map fun blob => ⟨blob, .blob⟩

theorem fileOf_treeOf (r : Snapshot) (p : String) : fileOf (treeOf r p) = r.files.lookup p := by
  unfold fileOf treeOf
  cases r.files.lookup p <;> rfl

def mergeShop (ours theirs : Snapshot) : Option Standing :=
  if ours = promotedTax ∧ theirs = upstreamTax then some taxClash else none

theorem mergeShop_ours (ours theirs : Snapshot) (standing : Standing)
    (hmerge : mergeShop ours theirs = some standing) (p : String)
    (hp : p ∉ standing.index.conflicted)
    (_ : fileOf (treeOf theirs p) = shop.files.lookup p) :
    standing.index.entry p = fileOf (treeOf ours p) := by
  unfold mergeShop at hmerge
  split at hmerge
  · rename_i hboth
    obtain rfl := Option.some.inj hmerge
    rw [hboth.1, fileOf_treeOf]
    exact taxClash_ours p hp
  · cases hmerge

/-- A repository in which these two commits are merged. -/
def shopHistory : History Snapshot where
  text r := toString r.files.length
  parents := Snapshot.parents
  tree := treeOf
  isAncestor := Snapshot.isIn
  base _ _ p := shop.files.lookup p
  merge := mergeShop
  sameTree a b := decide (a.files = b.files)
  commit := .join
  isAncestor_iff := Snapshot.isIn_iff
  merge_ours := mergeShop_ours
  parents_commit _ _ _ := rfl
  tree_commit merged ours theirs := fileOf_treeOf (.join merged ours theirs)

/-- A person chose canonical's side of `tax.ts`, having been shown both. -/
def shown (p : String) : Option (Option Blob × Option Blob) :=
  if p = "tax.ts" then some (some ⟨"100644", "t1"⟩, some ⟨"100644", "t2"⟩) else none

def localTax : SyncConflictResolution := .perFile [("tax.ts", .localSide)]

def upToCommit : List (Event Snapshot) :=
  [.promoted promotedTax, .fetched 0 upstreamTax, .readUpstream 0, .readBranch 0, .compared 0,
    .checkedOut 0, .merged 0, .settled 0 plainGit localTax shown]

/-- **A promotion that is reverted.** It lands between the merge and its commit, and the
commit, made on it, has the file as it was before. -/
theorem sync_reverts :
    ∃ s, run (step shopHistory) { branch := shop }
        (upToCommit ++ [.promoted promotedCart, .committed 0]) = some s ∧
      ¬KeepsPromotions shopHistory s := by
  refine ⟨_, rfl, fun hkeeps => ?_⟩
  obtain ⟨-, hfiles⟩ := hkeeps [_] _ _ rfl rfl
  rcases hfiles "cart.ts" with hsame | ⟨other, hother, hreplaces⟩
  · replace hsame : some (⟨"100644", "c0"⟩ : Blob) = some ⟨"100644", "c1"⟩ := hsame
    exact absurd hsame (by decide)
  · obtain rfl := List.mem_singleton.1 hother
    rcases hreplaces with ⟨-, hchanged, -⟩ | ⟨settled, hclash, hconflicted, -⟩
    · exact hchanged rfl
    · obtain rfl := Option.some.inj hclash
      replace hconflicted : "cart.ts" ∈ taxIndex.conflicted := hconflicted
      exact absurd hconflicted (by decide)

theorem localTax_honest : Honest plainGit (shopHistory.mergeOf promotedTax upstreamTax taxClash)
    localTax where
  answered p hp := by
    replace hp : p ∈ ["tax.ts"] := hp
    obtain rfl := List.mem_singleton.1 hp
    exact ⟨.ours, rfl⟩
  absent p hp hdrop := by
    replace hp : p ∈ ["tax.ts"] := hp
    obtain rfl := List.mem_singleton.1 hp
    cases hdrop
  alone before p behind hsplit hdrop := by
    have hp : p ∈ taxIndex.conflicted := by
      have hin : p ∈ before ++ p :: behind := List.mem_append_right _ List.mem_cons_self
      rwa [← hsplit] at hin
    replace hp : p ∈ ["tax.ts"] := hp
    obtain rfl := List.mem_singleton.1 hp
    cases hdrop

theorem upToCommit_orderly :
    Throughout (step shopHistory) (Orderly shopHistory) { branch := shop }
      (upToCommit ++ [.committed 0]) := by
  refine throughout_cons trivial rfl (throughout_cons trivial rfl (throughout_cons trivial rfl
    (throughout_cons trivial rfl (throughout_cons trivial rfl (throughout_cons trivial rfl
      (throughout_cons trivial rfl (throughout_cons ?_ rfl (throughout_cons ?_ rfl trivial))))))))
  · intro upstream merged standing hphase
    obtain ⟨rfl, rfl, rfl⟩ := Phase.clashed.inj (Option.some.inj hphase)
    refine ⟨rfl, localTax_honest, fun p hp htheirs => ?_⟩
    replace hp : p ∈ ["tax.ts"] := hp
    obtain rfl := List.mem_singleton.1 hp
    replace htheirs : some FileAnswer.localSide = some .remoteSide := htheirs
    cases htheirs
  · intro upstream merged index clash hphase
    obtain ⟨rfl, rfl, rfl, rfl⟩ := Phase.staged.inj (Option.some.inj hphase)
    rfl

/-- The same sync, when nothing lands in between. -/
theorem sync_keeps_promotions_shop :
    ∃ s, run (step shopHistory) { branch := shop } (upToCommit ++ [.committed 0]) = some s ∧
      s.branch = .join [("cart.ts", ⟨"100644", "c0"⟩), ("tax.ts", ⟨"100644", "t1"⟩)] promotedTax
        upstreamTax ∧
      KeepsPromotions shopHistory s :=
  ⟨_, rfl, rfl, sync_keeps_promotions upToCommit_orderly rfl⟩

end AgenticGit.Repository.RemoteSync
