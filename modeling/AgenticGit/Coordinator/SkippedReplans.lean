import AgenticGit.Coordinator.WaveResults

/- Tasks that wait, and are not replanned although canonical moved
   (`replansDisturbedBy` of `coordinator.ts`, and what `execute` does with its answer).

   A task is left out when nothing of an advance blocks its plan, or what the plan
   speculated on landed and nothing beyond that does. What a plan was really written
   against is followed beside the run: `Tracked` tells of every waiting task which
   revision its agent saw, and which work in progress.

   What is proved:
     1. `disturbed_eq_false_iff` — which tasks are left out, and for which advances.
     2. `refresh_judged` — a task that is caught up has had every change looked at.
     3. `skipped_replans_sound` — **so does every task of a run**, as long as what a plan
        was written against is recorded with it.
     4. `stale_speculation_skips` — a speculative replan that throws after it has put the
        agent's plan in place leaves the old record, and the task is left out for changes
        nobody showed its agent.

   Correspondence (TypeScript ↔ Lean):
     a change `assessReplay` counts as a blocker ↔ `Blocks`; names compare as `key` has it
     `describeCanonicalAdvance`, from one revision to another ↔ `canonical`
     `overlay.advance` of a waiting task         ↔ `Moment.shown` -/
namespace AgenticGit.Coordinator.Waves
open AgenticGit.Runtime AgenticGit.Runs AgenticGit.Shared AgenticGit.CodeIntelligence
open AgenticGit.Coordinator.Replay AgenticGit.Coordinator.WaveResults

section
variable [TextRuntime]

/-! ## What blocks a plan -/

/-- A change `assessReplay` counts as a blocker for a plan that has written nothing yet. -/
def Blocks (plan : AgentPlan) (type : ResourceType) (name : String) : Prop :=
  (type = .file ∧ plan.dependenciesUnknown = true) ∨ Concerned plan type name

def Unblocked (plan : AgentPlan) (advance : CanonicalAdvance) : Prop :=
  ∀ type, ∀ name ∈ advance.names type, ¬ Blocks plan type name

/-- **No blockers are found exactly when nothing blocks.** -/
theorem unblocked_iff {plan : AgentPlan} {changeSet : ChangeSet} {advance : CanonicalAdvance}
    (h : changeSet.patches = []) :
    (assessReplay plan changeSet advance).semantic = [] ∧
        (assessReplay plan changeSet advance).textual = [] ↔ Unblocked plan advance := by
  have htextual : (assessReplay plan changeSet advance).textual = [] ↔
      ∀ file ∈ advance.changedFiles, (plan.dependenciesUnknown || touched
        (plan.dependencies.map key) .file file) = false → key file ∉ plan.expectedFiles.map key := by
    have hsort (values : List String) : sortStrings (unique values) = [] ↔ values = [] := by
      simp only [List.eq_nil_iff_forall_not_mem, mem_sortStrings, mem_unique]
    simp only [assessReplay, hsort, List.map_eq_nil_iff, List.filter_eq_nil_iff, h, List.map_nil,
      List.nil_append, Bool.and_eq_true, Bool.not_eq_true', decide_eq_true_eq, not_and,
      completeAgentPlan]
  rw [semantic_eq_nil_iff, htextual]
  constructor
  · rintro ⟨⟨hfiles, hresources⟩, htextual⟩ type name hname
    by_cases htype : type = .file
    · obtain rfl := htype
      obtain ⟨hsighted, hdepends⟩ := hfiles name hname
      rintro (⟨-, hblind⟩ | hfile | hdepends')
      · rw [hsighted] at hblind
        cases hblind
      · refine htextual name hname ?_ hfile
        rw [hsighted, Bool.false_or]
        exact eq_false_of_ne_true hdepends
      · exact hdepends hdepends'
    · rintro (⟨hfile, -⟩ | hconcerned)
      · exact htype hfile
      · exact hresources type htype name hname hconcerned
  · intro hnone
    refine ⟨⟨fun file hfile => ⟨?_, ?_⟩, fun type _ name hname hconcerned => ?_⟩, ?_⟩
    · exact eq_false_of_ne_true fun hblind => hnone .file file hfile (.inl ⟨rfl, hblind⟩)
    · exact fun hdepends => hnone .file file hfile (.inr (.inr hdepends))
    · exact hnone type name hname (.inr hconcerned)
    · exact fun file hfile _ hexpected => hnone .file file hfile (.inr (.inl hexpected))

theorem mem_names_residualAdvance {actual speculated : CanonicalAdvance} {type : ResourceType}
    {name : String} :
    name ∈ (residualAdvance actual speculated).names type ↔
      name ∈ actual.names type ∧ key name ∉ (speculated.names type).map key := by
  cases type <;> simp only [CanonicalAdvance.names, residualAdvance, notSpeculated,
    List.mem_filter, decide_eq_true_eq]

/-- What of an advance blocks a plan is named in what the plan was written against. -/
def Foreseen (plan : AgentPlan) (advance speculated : CanonicalAdvance) : Prop :=
  ∀ type, ∀ name ∈ advance.names type, Blocks plan type name →
    key name ∈ (speculated.names type).map key

theorem foreseen_iff {plan : AgentPlan} {advance speculated : CanonicalAdvance} :
    Foreseen plan advance speculated ↔ Unblocked plan (residualAdvance advance speculated) := by
  constructor
  · intro h type name hname hblocks
    obtain ⟨hname, hnew⟩ := mem_names_residualAdvance.mp hname
    exact hnew (h type name hname hblocks)
  · intro h type name hname hblocks
    by_contra hnew
    exact h type name (mem_names_residualAdvance.mpr ⟨hname, hnew⟩) hblocks

/-- What an advance has to be for a task to be left out: nothing in it blocks the plan, or
what the plan speculated on landed and what blocks the plan was part of it. -/
def LeftOut (entry : QueuedTask) (advance : CanonicalAdvance) : Prop :=
  match entry.speculatedAdvance with
  | none => Unblocked entry.plan advance
  | some speculated =>
    speculationLanded speculated advance = true ∧ Foreseen entry.plan advance speculated

/-- **A task is left out exactly when the advance can be read and nothing new in it blocks
the plan**, unless every task is replanned. -/
theorem disturbed_eq_false_iff {input : WaveInput} {entry : QueuedTask} :
    disturbed input entry = false ↔ input.strictPlanRebase = false ∧
      ∃ advance, input.advance entry.plannedRevision = some advance ∧ LeftOut entry advance := by
  have hdisturbs (advance : CanonicalAdvance) :
      (decide (0 < (assessReplay entry.plan (noChanges entry) advance).semantic.length) ||
        decide (0 < (assessReplay entry.plan (noChanges entry) advance).textual.length)) = false ↔
          Unblocked entry.plan advance := by
    rw [Bool.or_eq_false_iff, decide_eq_false_iff_not, decide_eq_false_iff_not, Nat.not_lt,
      Nat.not_lt, Nat.le_zero, Nat.le_zero, List.length_eq_zero_iff, List.length_eq_zero_iff]
    exact unblocked_iff rfl
  unfold disturbed LeftOut
  dsimp only
  rw [Bool.or_eq_false_iff]
  refine and_congr_right fun _ => ?_
  cases hadvance : input.advance entry.plannedRevision with
  | none =>
    constructor
    · exact fun h => by cases h
    · rintro ⟨advance, h, -⟩
      cases h
  | some advance =>
    simp only [Option.some.injEq, exists_eq_left']
    cases entry.speculatedAdvance with
    | none => exact hdisturbs advance
    | some speculated =>
      dsimp only
      rw [Bool.or_eq_false_iff, Bool.not_eq_false', hdisturbs, foreseen_iff]

/-! ## What a plan was written against -/

/-- What an agent saw when it wrote a plan: a revision, and the work in progress over it. -/
structure Written where
  revision : String
  overlay : Option CanonicalAdvance := none
  deriving DecidableEq, Repr

/-- Everything canonical changed since the plan was written was looked at, and nothing in it
blocks the plan, unless it is part of what the plan was written against. -/
inductive Judged (canonical : String → String → CanonicalAdvance) (plan : AgentPlan)
    (written : Written) : String → Prop
  | written : Judged canonical plan written written.revision
  | independent {since revision : String} : Judged canonical plan written since →
      Unblocked plan (canonical since revision) → Judged canonical plan written revision
  | foreseen {revision : String} {overlay : CanonicalAdvance} : written.overlay = some overlay →
      Foreseen plan (canonical written.revision revision) overlay →
      Judged canonical plan written revision

/-- An iteration: what it is answered, and the work in progress the agents of waiting tasks
are shown. -/
structure Moment (canonical : String → String → CanonicalAdvance) where
  input : WaveInput
  shown : String → CanonicalAdvance
  reads : ∀ revision advance, input.advance revision = some advance →
    advance = canonical revision input.revision
  records : ∀ entry submitted advance, input.speculated entry = some (submitted, some advance) →
    advance = shown entry.taskId

/-- What a task's plan is written against once the task is caught up with canonical. -/
def writtenCaughtUp (input : WaveInput) (entry : QueuedTask) (written : Written) : Written :=
  if entry.plannedRevision = input.revision then written
  else if disturbed input entry then { revision := input.revision }
  else written

/-- What a task's plan is written against once the task has waited. -/
def writtenWaiting (ground : Grounding) (input : WaveInput) (shown : CanonicalAdvance)
    (entry : QueuedTask) (written : Written) : Written :=
  if entry.blockedBy.length = 0 then written
  else
    match input.speculated entry with
    | none => written
    | some (submitted, _) =>
      if (replanTask ground input entry submitted).isSome then
        { revision := input.revision, overlay := some shown }
      else written

variable {canonical : String → String → CanonicalAdvance} {ground : Grounding}

/-- A task that waits, after some iterations, with what its plan was really written
against. -/
inductive Tracked (ground : Grounding) :
    List (Moment canonical) → QueuedTask → Written → Prop
  | planned {entry : QueuedTask} : entry.speculatedAdvance = none →
      Tracked ground [] entry { revision := entry.plannedRevision }
  | waited {moments : List (Moment canonical)} {entry caughtUp : QueuedTask} {written : Written}
      (moment : Moment canonical) (blockedBy : List String) :
      Tracked ground moments entry written →
      refresh ground moment.input entry = some caughtUp →
      Tracked ground (moments ++ [moment])
        (speculate ground moment.input { caughtUp with blockedBy })
        (writtenWaiting ground moment.input (moment.shown caughtUp.taskId)
          { caughtUp with blockedBy } (writtenCaughtUp moment.input entry written))

/-- No speculative replan of a task that already speculates throws once it has put the
agent's plan in place. -/
def RecordsSpeculation (ground : Grounding) (input : WaveInput) : Prop :=
  ∀ entry submitted, input.speculated entry = some (submitted, none) →
    (replanTask ground input entry submitted).isSome → entry.speculatedAdvance = none

/-- What a task speculates on is what its plan was written against. -/
structure TrueRecord (canonical : String → String → CanonicalAdvance) (entry : QueuedTask)
    (written : Written) : Prop where
  judged : Judged canonical entry.plan written entry.plannedRevision
  speculated : entry.speculatedAdvance = none ∨
    (written.overlay = entry.speculatedAdvance ∧ written.revision = entry.plannedRevision)

theorem replanTask_written {input : WaveInput} {entry next : QueuedTask} {submitted : AgentPlan}
    (h : replanTask ground input entry submitted = some next) :
    next.plannedRevision = input.revision ∧ next.speculatedAdvance = entry.speculatedAdvance := by
  unfold replanTask at h
  obtain ⟨asserted, -, h⟩ := Option.bind_eq_some_iff.mp h
  rw [Option.ite_none_left_eq_some] at h
  obtain ⟨plan, -, h⟩ := Option.bind_eq_some_iff.mp h.2
  obtain rfl := Option.some.inj h
  exact ⟨rfl, rfl⟩

/-- **A task that is caught up has had every change looked at**, whether it was replanned or
left out. -/
theorem refresh_judged (moment : Moment canonical) {entry caughtUp : QueuedTask}
    {written : Written} (hrecord : TrueRecord canonical entry written)
    (h : refresh ground moment.input entry = some caughtUp) :
    Judged canonical caughtUp.plan (writtenCaughtUp moment.input entry written)
        moment.input.revision ∧
      TrueRecord canonical caughtUp (writtenCaughtUp moment.input entry written) := by
  unfold refresh at h
  unfold writtenCaughtUp
  by_cases hmoved : entry.plannedRevision = moment.input.revision
  · rw [if_pos hmoved] at h ⊢
    obtain rfl := Option.some.inj h
    exact ⟨hmoved ▸ hrecord.judged, hrecord⟩
  · rw [if_neg hmoved] at h ⊢
    by_cases hdisturbed : disturbed moment.input entry = true
    · rw [if_pos hdisturbed] at h ⊢
      obtain ⟨submitted, -, h⟩ := Option.bind_eq_some_iff.mp h
      obtain ⟨replanned, hreplanned, h⟩ := Option.bind_eq_some_iff.mp h
      obtain rfl := Option.some.inj h
      refine ⟨.written, ?_, .inl rfl⟩
      rw [(replanTask_written hreplanned).1]
      exact .written
    · rw [if_neg hdisturbed] at h ⊢
      obtain ⟨-, advance, hadvance, hleft⟩ :=
        disturbed_eq_false_iff.mp (eq_false_of_ne_true hdisturbed)
      obtain rfl := moment.reads _ _ hadvance
      unfold LeftOut at hleft
      cases hspeculated : entry.speculatedAdvance with
      | none =>
        rw [hspeculated] at h hleft
        obtain rfl := Option.some.inj h
        exact ⟨.independent hrecord.judged hleft, hrecord⟩
      | some speculated =>
        rw [hspeculated] at h hleft
        obtain rfl := Option.some.inj h
        rcases hrecord.speculated with hnone | ⟨hoverlay, hrevision⟩
        · rw [hspeculated] at hnone
          cases hnone
        · have hjudged : Judged canonical entry.plan written moment.input.revision :=
            .foreseen (hoverlay.trans hspeculated) (hrevision ▸ hleft.2)
          exact ⟨hjudged, hjudged, .inl rfl⟩

theorem speculate_record (moment : Moment canonical) {entry : QueuedTask} {written : Written}
    (hrecords : RecordsSpeculation ground moment.input)
    (hrecord : TrueRecord canonical entry written) :
    TrueRecord canonical (speculate ground moment.input entry)
      (writtenWaiting ground moment.input (moment.shown entry.taskId) entry written) := by
  unfold speculate writtenWaiting
  by_cases hblocked : entry.blockedBy.length = 0
  · rw [if_pos hblocked, if_pos hblocked]
    exact hrecord
  · rw [if_neg hblocked, if_neg hblocked]
    cases hspeculated : moment.input.speculated entry with
    | none => exact hrecord
    | some answer =>
      obtain ⟨submitted, advance⟩ := answer
      dsimp only
      cases hreplanned : replanTask ground moment.input entry submitted with
      | none => exact hrecord
      | some replanned =>
        obtain ⟨hrevision, hkept⟩ := replanTask_written hreplanned
        refine ⟨hrevision ▸ .written, ?_⟩
        cases advance with
        | none =>
          exact .inl (hrecords entry submitted hspeculated (hreplanned ▸ rfl))
        | some advance =>
          refine .inr ⟨?_, hrevision.symm⟩
          rw [moment.records entry submitted advance hspeculated]
          rfl

/-- **What a task speculates on is what its plan was written against**, in every iteration. -/
theorem tracked_record {moments : List (Moment canonical)} {entry : QueuedTask}
    {written : Written} (hrecords : ∀ moment ∈ moments, RecordsSpeculation ground moment.input)
    (h : Tracked ground moments entry written) : TrueRecord canonical entry written := by
  induction h with
  | planned hnone => exact ⟨.written, .inl hnone⟩
  | @waited moments entry caughtUp written moment blockedBy _ hrefresh ih =>
    have hbefore := ih fun moment hmoment => hrecords moment (List.mem_append_left _ hmoment)
    have hlast := hrecords moment (List.mem_append_right _ (List.mem_singleton_self moment))
    have hcaughtUp := (refresh_judged moment hbefore hrefresh).2
    exact @speculate_record _ _ _ moment { caughtUp with blockedBy } _ hlast
      ⟨hcaughtUp.judged, hcaughtUp.speculated⟩

/-! ## Runs -/

variable [Lemmatizer] [Printer] {self : ConflictDetector}

theorem step_waits {s t : State} {input : WaveInput} (h : step self ground s input = some t)
    {entry : QueuedTask} (hentry : entry ∈ t.pending) :
    ∃ before ∈ s.pending, ∃ caughtUp blockedBy, refresh ground input before = some caughtUp ∧
      entry = speculate ground input { caughtUp with blockedBy } := by
  obtain ⟨pending, caughtUp, assessments, settled, rfl, hrefreshed, -, hsettled, hwaiting, -⟩ :=
    step_some h
  obtain ⟨waiting, hin, rfl⟩ := hwaiting entry hentry
  obtain ⟨pair, hpair, houtcome⟩ := forall₂_source (mapM_some hsettled) hin
  obtain ⟨next, hnext, hselected⟩ := forall₂_source (select_forall₂ _ _) hpair
  obtain ⟨before, hbefore, hrefresh⟩ := forall₂_source hrefreshed hnext
  refine ⟨before, List.mem_of_mem_filter hbefore, next, waiting.blockedBy, hrefresh, ?_⟩
  suffices hwaits : ∃ blockedBy, waiting = { next with blockedBy } by
    obtain ⟨blockedBy, rfl⟩ := hwaits
    rfl
  split at houtcome
  · obtain ⟨blockedBy, rfl⟩ := settle_deferred houtcome
    exact ⟨blockedBy, by rw [hselected]⟩
  · obtain rfl := Sum.inr.inj (Option.some.inj houtcome)
    exact ⟨_, hselected⟩

theorem tracked_run {moments past : List (Moment canonical)} {s t : State}
    (hpast : ∀ entry ∈ s.pending, ∃ written, Tracked ground past entry written)
    (h : run (step self ground) s (moments.map Moment.input) = some t) :
    ∀ entry ∈ t.pending, ∃ written, Tracked ground (past ++ moments) entry written := by
  induction moments generalizing s past with
  | nil =>
    obtain rfl := Option.some.inj h
    rw [List.append_nil]
    exact hpast
  | cons moment moments ih =>
    obtain ⟨next, hnext, h⟩ := run_cons h
    rw [List.append_cons]
    refine ih (fun entry hentry => ?_) h
    obtain ⟨before, hbefore, caughtUp, blockedBy, hrefresh, rfl⟩ := step_waits hnext hentry
    obtain ⟨written, htracked⟩ := hpast before hbefore
    exact ⟨_, .waited moment blockedBy htracked hrefresh⟩

/-- **Skipping a replan is sound** in every run in which no speculative replan of a task that
already speculates throws once it has put the agent's plan in place. What blocks a plan in
an advance a task is left out for is part of what the task speculates on, in any case. -/
theorem skipped_replans_sound (self : ConflictDetector) (ground : Grounding)
    (canonical : String → String → CanonicalAdvance) {tasks : List QueuedTask}
    (hplanned : ∀ entry ∈ tasks, entry.speculatedAdvance = none)
    {moments : List (Moment canonical)}
    (hrecords : ∀ moment ∈ moments, RecordsSpeculation ground moment.input) {s : State}
    (hrun : run (step self ground) ⟨tasks, 0, []⟩ (moments.map Moment.input) = some s) :
    (∀ (input : WaveInput) (entry : QueuedTask), disturbed input entry = false →
      ∃ advance, input.advance entry.plannedRevision = some advance ∧
        ∀ type, ∀ name ∈ advance.names type, Blocks entry.plan type name →
          ∃ speculated, entry.speculatedAdvance = some speculated ∧
            key name ∈ (speculated.names type).map key) ∧
      ∀ entry ∈ s.pending, (∃ written, Tracked ground moments entry written) ∧
        ∀ written, Tracked ground moments entry written →
          ∀ (moment : Moment canonical) (caughtUp : QueuedTask),
            refresh ground moment.input entry = some caughtUp →
              Judged canonical caughtUp.plan (writtenCaughtUp moment.input entry written)
                moment.input.revision := by
  refine ⟨fun input entry hskipped => ?_, fun entry hentry => ⟨?_, ?_⟩⟩
  · obtain ⟨-, advance, hadvance, hleft⟩ := disturbed_eq_false_iff.mp hskipped
    refine ⟨advance, hadvance, fun type name hname hblocks => ?_⟩
    unfold LeftOut at hleft
    cases hspeculated : entry.speculatedAdvance with
    | none =>
      rw [hspeculated] at hleft
      exact absurd hblocks (hleft type name hname)
    | some speculated =>
      rw [hspeculated] at hleft
      exact ⟨speculated, rfl, hleft.2 type name hname hblocks⟩
  · have hstart : ∀ entry ∈ tasks, ∃ written, @Tracked _ canonical ground [] entry written :=
      fun entry hentry => ⟨_, .planned (hplanned entry hentry)⟩
    exact tracked_run hstart hrun entry hentry
  · intro written htracked moment caughtUp hrefresh
    exact (refresh_judged moment (tracked_record hrecords htracked) hrefresh).1

end

/-! ## A plan written against what nobody recorded -/

section
attribute [local instance] asciiRuntime wholePrinter plainLemmatizer

def filesChanged (files : List String) : CanonicalAdvance := ⟨files, [], [], [], [], [], []⟩

/-- Canonical moves once, and `a.ts` changes. -/
def aMoves (since revision : String) : CanonicalAdvance :=
  if since = revision then filesChanged [] else filesChanged ["a.ts"]

/-- An iteration at the base revision. The agent of a waiting task that is shown edits of one
file writes a plan over `a.ts`; what it was shown is recorded, or recording it threw. -/
def sees (file : String) (recorded : Bool) : Moment aMoves where
  input :=
    { onBase holderWorks with
      speculated := fun _ =>
        some (planOn "waiter" "a.ts", if recorded then some (filesChanged [file]) else none) }
  shown _ := filesChanged [file]
  reads _ _ h := by cases h
  records _ _ advance h := by
    cases recorded with
    | false => cases h
    | true =>
      obtain rfl := Option.some.inj (congrArg Prod.snd (Option.some.inj h))
      rfl

def moved : Moment aMoves where
  input :=
    { onBase holderWorks with
      revision := "next"
      advance := fun revision => some (aMoves revision "next")
      speculated := fun _ => none }
  shown _ := filesChanged []
  reads _ _ h := (Option.some.inj h).symm
  records _ _ _ h := by cases h

/-- The grounding of repositories nobody names anything of. -/
def noGrounding : Grounding := fun _ _ => .ok none

/-- The plan over `a.ts`, verified. -/
def aPlan : AgentPlan :=
  ((verifyPlan noGrounding (planOn "waiter" "a.ts") (onBase holderWorks).index).toOption).getD
    (planOn "waiter" "a.ts")

/-- The waiting task, its plan over `a.ts` written for the `revision`th time. -/
def waiting (revision : Nat) : QueuedTask where
  taskId := "waiter"
  agentId := "agent"
  plan := aPlan
  planRevision := revision
  plannedRevision := "base"
  speculatedAdvance := some (filesChanged ["a.ts"])
  blockedBy := ["holder"]

/-- A plan over `a.ts` that was written against work on another file. -/
def aPlanUnseen : Written := ⟨"base", some (filesChanged ["b.ts"])⟩

theorem seen_once : Tracked noGrounding [sees "a.ts" true] (waiting 2)
    ⟨"base", some (filesChanged ["a.ts"])⟩ := by
  have htask : speculate noGrounding (sees "a.ts" true).input
      { taskOn "waiter" "a.ts" with blockedBy := ["holder"] } = waiting 2 := by decide
  have hwritten : writtenWaiting noGrounding (sees "a.ts" true).input (filesChanged ["a.ts"])
      { taskOn "waiter" "a.ts" with blockedBy := ["holder"] }
      (writtenCaughtUp (sees "a.ts" true).input (taskOn "waiter" "a.ts") ⟨"base", none⟩) =
        ⟨"base", some (filesChanged ["a.ts"])⟩ := by decide
  rw [← htask, ← hwritten]
  exact .waited (sees "a.ts" true) ["holder"] (.planned rfl) (by decide)

theorem seen_twice : Tracked noGrounding [sees "a.ts" true, sees "b.ts" false] (waiting 3)
    aPlanUnseen := by
  have htask : speculate noGrounding (sees "b.ts" false).input
      { waiting 2 with blockedBy := ["holder"] } = waiting 3 := by decide
  have hwritten : writtenWaiting noGrounding (sees "b.ts" false).input (filesChanged ["b.ts"])
      { waiting 2 with blockedBy := ["holder"] }
      (writtenCaughtUp (sees "b.ts" false).input (waiting 2)
        ⟨"base", some (filesChanged ["a.ts"])⟩) = aPlanUnseen := by decide
  rw [← htask, ← hwritten]
  exact .waited (sees "b.ts" false) ["holder"] seen_once (by decide)

theorem judged_base {revision : String} (h : Judged aMoves aPlan aPlanUnseen revision) :
    revision = "base" := by
  have hblocks : Blocks aPlan .file "a.ts" := .inr (.inl (by decide))
  have hmoves : ∀ {revision : String}, revision ≠ "base" →
      "a.ts" ∈ (aMoves "base" revision).names .file := by
    intro revision hne
    rw [aMoves, if_neg (Ne.symm hne)]
    exact List.mem_singleton_self _
  induction h with
  | written => rfl
  | independent _ hnone ih =>
    by_contra hne
    obtain rfl := ih
    exact hnone .file "a.ts" (hmoves hne) hblocks
  | foreseen hoverlay hforeseen =>
    by_contra hne
    obtain rfl := Option.some.inj hoverlay
    have hcovered := hforeseen .file "a.ts" (hmoves hne) hblocks
    exact absurd hcovered (by decide)

/-- A task that saw the edits of `a.ts` is left out when they land. -/
theorem skipped_replans_sound_landed :
    ∃ s, run (step ConflictDetector.default noGrounding) ⟨[taskOn "waiter" "a.ts"], 0, []⟩
        [(sees "a.ts" true).input] = some s ∧ s.pending = [waiting 2] ∧
      refresh noGrounding moved.input (waiting 2) = some
        { waiting 2 with plannedRevision := "next", speculatedAdvance := none } ∧
      Judged aMoves aPlan (writtenCaughtUp moved.input (waiting 2)
        ⟨"base", some (filesChanged ["a.ts"])⟩) "next" := by
  have hpending : (run (step ConflictDetector.default noGrounding)
      ⟨[taskOn "waiter" "a.ts"], 0, []⟩ [(sees "a.ts" true).input]).map State.pending =
        some [waiting 2] := by decide
  obtain ⟨s, hs, hpending⟩ := Option.map_eq_some_iff.mp hpending
  have hrefresh : refresh noGrounding moved.input (waiting 2) = some
      { waiting 2 with plannedRevision := "next", speculatedAdvance := none } := by decide
  have hplanned : ∀ entry ∈ [taskOn "waiter" "a.ts"], entry.speculatedAdvance = none := by
    intro entry hentry
    rw [List.mem_singleton.mp hentry]
    rfl
  have hrecords : ∀ moment ∈ [sees "a.ts" true], RecordsSpeculation noGrounding moment.input := by
    intro moment hmoment entry submitted h
    rw [List.mem_singleton.mp hmoment] at h
    cases h
  have hsound := (skipped_replans_sound ConflictDetector.default noGrounding aMoves hplanned
    hrecords hs).2 (waiting 2) (hpending ▸ List.mem_singleton_self _)
  exact ⟨s, hs, hpending, hrefresh, hsound.2 _ seen_once moved _ hrefresh⟩

/-- **A task that was written against edits of `b.ts` is left out when `a.ts` lands**: the
edits of `a.ts` that it saw before are what is still recorded. -/
theorem stale_speculation_skips :
    ∃ s, run (step ConflictDetector.default noGrounding) ⟨[taskOn "waiter" "a.ts"], 0, []⟩
        [(sees "a.ts" true).input, (sees "b.ts" false).input] = some s ∧
      s.pending = [waiting 3] ∧
      Tracked noGrounding [sees "a.ts" true, sees "b.ts" false] (waiting 3) aPlanUnseen ∧
      ∃ caughtUp, refresh noGrounding moved.input (waiting 3) = some caughtUp ∧
        ¬Judged aMoves caughtUp.plan (writtenCaughtUp moved.input (waiting 3) aPlanUnseen)
          moved.input.revision := by
  have hpending : (run (step ConflictDetector.default noGrounding)
      ⟨[taskOn "waiter" "a.ts"], 0, []⟩
      [(sees "a.ts" true).input, (sees "b.ts" false).input]).map State.pending =
        some [waiting 3] := by decide
  obtain ⟨s, hs, hpending⟩ := Option.map_eq_some_iff.mp hpending
  have hrefresh : refresh noGrounding moved.input (waiting 3) = some
      { waiting 3 with plannedRevision := "next", speculatedAdvance := none } := by decide
  have hwritten : writtenCaughtUp moved.input (waiting 3) aPlanUnseen = aPlanUnseen := by
    decide
  refine ⟨s, hs, hpending, seen_twice, _, hrefresh, ?_⟩
  rw [hwritten]
  exact fun hjudged => absurd (judged_base hjudged) (by decide)

end

end AgenticGit.Coordinator.Waves
