import AgenticGit.Lib.Runs
import AgenticGit.Coordinator.MidRun
import AgenticGit.Coordinator.Narrowing
import AgenticGit.Coordinator.Replay

/- The wave loop of `Coordinator.execute` (`coordinator.ts`): which tasks of a
   run start together, and on which plans.

   An iteration replans what canonical moved under, sequences the pending plans against
   each other, asks the plan authority about every task that is ready, and starts the
   ones it admits. A task that waits may replan against work in progress. If that work
   does not land and the task is admitted all the same, it is replanned once more, after
   both checks.

   What is proved:
     1. `selected_unopposed` — of two tasks that are selected together, neither has a
        structural conflict with the other.
     2. `waves_arbitrated` — every task starts on the plan it was admitted on, and apart
        from the others, in every run whose authority answers with the plan it was asked
        about or less, and admits no task whose speculation did not land.
     3. `unlanded_speculation_started` — without that, a task starts on a plan nobody was
        asked about.

   Correspondence (TypeScript ↔ Lean):
     one iteration of `while (pending.length > 0)` ↔ `step`
     what agents, canonical, the authority and whoever stops a task answer during one
       ↔ `WaveInput`
     a map of sets of blockers                     ↔ the list of its pairs, blocked first
     the `PreparedTask`s' `entry.plan`             ↔ `Started`
   Decisions, records and workspaces are left out, as is what integration makes of a
   task; dependents it cancels are `dropped`. -/
namespace AgenticGit.Coordinator.Waves
open AgenticGit.Runtime AgenticGit.Runs AgenticGit.Shared AgenticGit.CodeIntelligence
open AgenticGit.Coordinator.Replay

/-! ## Tasks that wait -/

structure QueuedTask extends PlannedTask where
  /-- The revision the plan was written against. -/
  plannedRevision : String
  /-- The work in progress the plan was written against, while that is open. -/
  speculatedAdvance : Option CanonicalAdvance := none
  blockedBy : List String := []
  deriving DecidableEq, Repr

inductive PlanAuthorityDecision where
  | admitted (plan : AgentPlan) (admission : Option PlanAdmission)
  | deferred (retryAfterMs : Int) (blockedBy : List String) (explanation : String)
  deriving DecidableEq, Repr

/-- What one iteration is answered. -/
structure WaveInput where
  /-- The tasks stopped from outside. -/
  stopped : List String
  revision : String
  index : RepositoryIndex
  strictPlanRebase : Bool
  /-- What canonical changed since a revision; `none` where that cannot be read. -/
  advance : String → Option CanonicalAdvance
  /-- The plan a task's agent submits when canonical moved under it. -/
  replanned : String → Option AgentPlan
  /-- What the plan authority answers when it is asked about a task. -/
  answer : QueuedTask → PlanAuthorityDecision
  /-- The plan a task's agent submits when its speculation did not land. -/
  replannedCold : String → Option AgentPlan
  /-- The plan a waiting task's agent submits against work in progress, and that work. -/
  speculated : QueuedTask → Option (AgentPlan × Option CanonicalAdvance)
  /-- The tasks cancelled with a producer that did not integrate. -/
  dropped : List String

/-- `assessAll`, over the pairs in their order. -/
def assessAll [TextRuntime] [Printer] (self : ConflictDetector) :
    List AgentPlan → Except PathError (List ConflictAssessment)
  | [] => .ok []
  | plan :: plans => do
    let found ← plans.mapM fun other => self.assess plan other none none
    return found.reduceOption ++ (← assessAll self plans)

section
variable [TextRuntime]

def consumes (consumer producer : AgentPlan) : Bool :=
  (completeAgentPlan consumer).dependencies.any fun dependency =>
    toLowerCase dependency ∈ resourceNames (completed producer)

def preferredOrder (first second : AgentPlan) : Option (String × String) :=
  if consumes first second = consumes second first then none
  else if consumes first second then some (second.taskId, first.taskId)
  else some (first.taskId, second.taskId)

/-! ## Replanning -/

def replanTask (ground : Grounding) (input : WaveInput) (entry : QueuedTask)
    (submitted : AgentPlan) : Option QueuedTask := do
  let asserted ← (assertAgentPlan submitted).toOption
  if asserted.taskId ≠ entry.taskId then none
  else
    let plan ← (verifyPlan ground asserted input.index).toOption
    return { entry with
      plan, planRevision := entry.planRevision + 1, plannedRevision := input.revision }

def noChanges (entry : QueuedTask) : ChangeSet := ⟨"", entry.taskId, 0, entry.plannedRevision, []⟩

/-- `replansDisturbedBy`, for one task whose canonical moved. -/
def disturbed (input : WaveInput) (entry : QueuedTask) : Bool :=
  let disturbs := fun advance =>
    let assessment := assessReplay entry.plan (noChanges entry) advance
    0 < assessment.semantic.length || 0 < assessment.textual.length
  input.strictPlanRebase ||
    match input.advance entry.plannedRevision with
    | none => true
    | some advance =>
      match entry.speculatedAdvance with
      | none => disturbs advance
      | some speculated =>
        !speculationLanded speculated advance || disturbs (residualAdvance advance speculated)

def refresh (ground : Grounding) (input : WaveInput) (entry : QueuedTask) : Option QueuedTask :=
  if entry.plannedRevision = input.revision then some entry
  else if disturbed input entry then do
    let submitted ← input.replanned entry.taskId
    let entry ← replanTask ground input entry submitted
    return { entry with speculatedAdvance := none }
  else if entry.speculatedAdvance.isSome then
    some { entry with plannedRevision := input.revision, speculatedAdvance := none }
  else some entry

/-! ## Sequencing -/

variable [Lemmatizer]

/-- An unverifiable plan waits behind related work: blocked first. -/
def ungroundedBlockers (pending : List QueuedTask) : List (String × String) :=
  pending.zipIdx.flatMap fun (entry, position) =>
    if planGroundingConfidence entry.plan ≠ .ungrounded then []
    else pending.zipIdx.filterMap fun (other, otherPosition) =>
      if otherPosition = position ∨ ¬relatedObjectives entry.plan other.plan then none
      else if planGroundingConfidence other.plan ≠ .ungrounded ∨ otherPosition < position then
        some (entry.taskId, other.taskId)
      else none

def byId (pending : List QueuedTask) (id : String) : Option QueuedTask :=
  pending.reverse.find? fun entry => entry.taskId = id

/-- Which of two conflicting tasks waits for the other. -/
def conflictBlocker (pending : List QueuedTask) (assessment : ConflictAssessment) :
    Option (String × String) :=
  if !structuralConflict assessment then none
  else
    match byId pending assessment.taskIds.1, byId pending assessment.taskIds.2 with
    | some first, some second =>
      match preferredOrder first.plan second.plan with
      | some order =>
        let blocker := (byId pending order.1).getD first
        let blocked := (byId pending order.2).getD second
        some (blocked.taskId, blocker.taskId)
      | none =>
        if pending.findIdx (fun entry => entry.taskId = first.taskId) <
            pending.findIdx (fun entry => entry.taskId = second.taskId) then
          some (second.taskId, first.taskId)
        else some (first.taskId, second.taskId)
    | _, _ => none

def buildBlockers (pending : List QueuedTask) (assessments : List ConflictAssessment) :
    List (String × String) :=
  ungroundedBlockers pending ++ assessments.filterMap (conflictBlocker pending)

def blockersOf (blockers : List (String × String)) (taskId : String) : List String :=
  unique ((blockers.filter fun pair => pair.1 = taskId).map Prod.snd)

/-! ## The wave -/

/-- A task that starts: as the authority was asked about it, and as it is prepared. -/
structure Started where
  asked : QueuedTask
  task : PlannedTask
  deriving DecidableEq, Repr

def settle (ground : Grounding) (input : WaveInput) (entry : QueuedTask) :
    Option (Started ⊕ QueuedTask) :=
  match input.answer entry with
  | .deferred _ blockedBy _ =>
    some (.inr { entry with blockedBy := uniqueStrings (entry.blockedBy ++ blockedBy) })
  | .admitted plan admission => do
    let admission := match admission with
      | some admission => some admission
      | none => entry.admission
    -- a speculative plan against work that never landed is replanned, not executed
    if entry.speculatedAdvance.isSome ∧ entry.plannedRevision = input.revision then
      let submitted ← input.replannedCold entry.taskId
      let replanned ← replanTask ground input entry submitted
      return .inl ⟨entry, { replanned.toPlannedTask with admission }⟩
    else return .inl ⟨entry, { entry.toPlannedTask with plan, admission }⟩

/-- The tasks of a wave: those that wait for nothing, or else the first, to break a
cycle; the others wait. -/
def select (pending : List QueuedTask) (blockers : List (String × String)) :
    List (QueuedTask × Bool) :=
  let waiting := pending.map fun entry =>
    { entry with blockedBy := blockersOf blockers entry.taskId }
  if waiting.all fun entry => 0 < entry.blockedBy.length then
    match waiting with
    | [] => []
    | first :: rest => (first, true) :: rest.map fun entry => (entry, false)
  else waiting.map fun entry => (entry, entry.blockedBy.length = 0)

def outcomes (ground : Grounding) (input : WaveInput) (selected : List (QueuedTask × Bool)) :
    Option (List (Started ⊕ QueuedTask)) :=
  selected.mapM fun entry =>
    if entry.2 then settle ground input entry.1 else some (.inr entry.1)

/-- A waiting task takes its head start, when it gets one. -/
def speculate (ground : Grounding) (input : WaveInput) (entry : QueuedTask) : QueuedTask :=
  if entry.blockedBy.length = 0 then entry
  else
    match input.speculated entry with
    | none => entry
    | some (submitted, advance) =>
      match replanTask ground input entry submitted with
      | none => entry
      | some replanned =>
        { replanned with
          speculatedAdvance := match advance with
            | some advance => some advance
            | none => entry.speculatedAdvance }

/-- A wave that was started. -/
structure Wave where
  input : WaveInput
  started : List Started

structure State where
  pending : List QueuedTask
  deferredWaves : Nat
  waves : List Wave

def maxConsecutiveDeferredWaves : Nat := 240

variable [Printer] (self : ConflictDetector) (ground : Grounding)

/-- One iteration; `none` when the run is over, or collapses. -/
def step (s : State) (input : WaveInput) : Option State := do
  let pending := s.pending.filter fun entry => entry.taskId ∉ input.stopped
  if pending.length = 0 then none
  else
    let pending ← pending.mapM (refresh ground input)
    let assessments ← (assessAll self (pending.map fun entry => entry.plan)).toOption
    let settled ← outcomes ground input (select pending (buildBlockers pending assessments))
    let started := settled.filterMap Sum.getLeft?
    let waiting := (settled.filterMap Sum.getRight?).map (speculate ground input)
    if started.length = 0 then
      if maxConsecutiveDeferredWaves < s.deferredWaves + 1 then none
      else some { s with pending := waiting, deferredWaves := s.deferredWaves + 1 }
    else
      some {
        pending := waiting.filter fun entry => entry.taskId ∉ input.dropped
        deferredWaves := 0
        waves := s.waves ++ [⟨input, started⟩] }

/-! ## Lists -/

variable {α β : Type} {R : α → β → Prop}

omit [TextRuntime] [Lemmatizer] [Printer] in
theorem mapM_some {f : α → Option β} {xs : List α} {ys : List β} (h : xs.mapM f = some ys) :
    List.Forall₂ (fun x y => f x = some y) xs ys := by
  induction xs generalizing ys with
  | nil =>
    rw [List.mapM_nil] at h
    obtain rfl := Option.some.inj h
    exact .nil
  | cons x xs ih =>
    rw [List.mapM_cons] at h
    obtain ⟨y, hy, h⟩ := Option.bind_eq_some_iff.mp h
    obtain ⟨rest, hrest, h⟩ := Option.bind_eq_some_iff.mp h
    obtain rfl := Option.some.inj h
    exact .cons hy (ih hrest)

omit [TextRuntime] [Lemmatizer] [Printer] in
theorem forall₂_source {xs : List α} {ys : List β} (h : List.Forall₂ R xs ys) {y : β} (hy : y ∈ ys) :
    ∃ x ∈ xs, R x y := by
  induction h with
  | nil => cases hy
  | cons hhead _ ih =>
    rcases List.mem_cons.mp hy with rfl | hy
    · exact ⟨_, List.mem_cons_self, hhead⟩
    · obtain ⟨x, hx, hxy⟩ := ih hy
      exact ⟨x, List.mem_cons_of_mem _ hx, hxy⟩

omit [TextRuntime] [Lemmatizer] [Printer] in
theorem forall₂_pairwise {P : α → α → Prop} {Q : β → β → Prop} {xs : List α} {ys : List β}
    (h : List.Forall₂ R xs ys) (hpairs : xs.Pairwise P)
    (himp : ∀ x x' y y', R x y → R x' y' → P x x' → Q y y') : ys.Pairwise Q := by
  induction h with
  | nil => exact .nil
  | cons hhead htail ih =>
    obtain ⟨hfirst, hpairs⟩ := List.pairwise_cons.mp hpairs
    refine List.pairwise_cons.mpr ⟨fun y hy => ?_, ih hpairs⟩
    obtain ⟨x, hx, hxy⟩ := forall₂_source htail hy
    exact himp _ _ _ _ hhead hxy (hfirst x hx)

/-! ## Replanning keeps a plan with its task -/

def OwnPlan (entry : QueuedTask) : Prop := entry.plan.taskId = entry.taskId

omit [Lemmatizer] [Printer] in
theorem taskId_verifyPlan {plan verified : AgentPlan} {index : RepositoryIndex}
    (h : verifyPlan ground plan index = .ok verified) : verified.taskId = plan.taskId := by
  unfold verifyPlan groundPlan enrichPlan at h
  obtain ⟨grounded, hgrounded, h⟩ := except_bind_ok h
  obtain ⟨grounding, -, hgrounded⟩ := except_bind_ok hgrounded
  obtain ⟨files, -, h⟩ := except_bind_ok h
  obtain rfl := Except.ok.inj h
  obtain rfl := Except.ok.inj hgrounded
  rfl

section
variable {ground : Grounding} {input : WaveInput} {entry next : QueuedTask}

omit [Lemmatizer] [Printer] in
theorem replanTask_some {submitted : AgentPlan}
    (h : replanTask ground input entry submitted = some next) :
    next.taskId = entry.taskId ∧ OwnPlan next := by
  unfold replanTask at h
  obtain ⟨asserted, -, h⟩ := Option.bind_eq_some_iff.mp h
  rw [Option.ite_none_left_eq_some, not_not] at h
  obtain ⟨htask, h⟩ := h
  obtain ⟨plan, hplan, h⟩ := Option.bind_eq_some_iff.mp h
  obtain rfl := Option.some.inj h
  exact ⟨rfl, (taskId_verifyPlan ground (toOption_eq_some hplan)).trans htask⟩

omit [Lemmatizer] [Printer] in
theorem refresh_some (h : refresh ground input entry = some next) (hown : OwnPlan entry) :
    next.taskId = entry.taskId ∧ OwnPlan next ∧
      (next.speculatedAdvance.isSome → next.plannedRevision = input.revision → next = entry) := by
  unfold refresh at h
  split at h
  · obtain rfl := Option.some.inj h
    exact ⟨rfl, hown, fun _ _ => rfl⟩
  · rename_i hmoved
    split at h
    · obtain ⟨submitted, -, h⟩ := Option.bind_eq_some_iff.mp h
      obtain ⟨replanned, hreplanned, h⟩ := Option.bind_eq_some_iff.mp h
      obtain rfl := Option.some.inj h
      obtain ⟨htask, hown⟩ := replanTask_some hreplanned
      exact ⟨htask, hown, fun hspeculated => by cases hspeculated⟩
    · split at h
      · obtain rfl := Option.some.inj h
        exact ⟨rfl, hown, fun hspeculated => by cases hspeculated⟩
      · obtain rfl := Option.some.inj h
        exact ⟨rfl, hown, fun _ hrevision => absurd hrevision hmoved⟩

omit [Lemmatizer] [Printer] in
theorem speculate_own (hown : OwnPlan entry) : OwnPlan (speculate ground input entry) := by
  unfold speculate
  split
  · exact hown
  · split
    · exact hown
    · split
      · exact hown
      · rename_i hreplanned
        exact (replanTask_some hreplanned).2

omit [Lemmatizer] [Printer] in
theorem settle_waits (h : settle ground input entry = some (.inr next)) (hown : OwnPlan entry) :
    OwnPlan next := by
  unfold settle at h
  split at h
  · obtain rfl := Sum.inr.inj (Option.some.inj h)
    exact hown
  · dsimp only at h
    split at h
    · obtain ⟨submitted, -, h⟩ := Option.bind_eq_some_iff.mp h
      obtain ⟨replanned, -, h⟩ := Option.bind_eq_some_iff.mp h
      cases h
    · cases h

def Speculative (input : WaveInput) (entry : QueuedTask) : Prop :=
  entry.speculatedAdvance.isSome ∧ entry.plannedRevision = input.revision

omit [Lemmatizer] [Printer] in
theorem settle_starts {started : Started} (h : settle ground input entry = some (.inl started))
    (hlanded : (∃ plan admission, input.answer entry = .admitted plan admission) →
      ¬ Speculative input entry) :
    started.asked = entry ∧ started.task.taskId = entry.taskId ∧
      ∃ admission, input.answer entry = .admitted started.task.plan admission := by
  unfold settle at h
  split at h
  · cases h
  · rename_i plan admission hanswer
    dsimp only at h
    rw [if_neg (show ¬(_ ∧ _) from hlanded ⟨plan, admission, hanswer⟩)] at h
    obtain rfl := Sum.inl.inj (Option.some.inj h)
    exact ⟨rfl, rfl, admission, hanswer⟩

end

/-! ## Sequencing keeps plans apart -/

omit [Lemmatizer] in
theorem assessAll_ok {self : ConflictDetector} {plans : List AgentPlan}
    {assessments : List ConflictAssessment} (h : assessAll self plans = .ok assessments) :
    plans.Pairwise fun first second =>
      ∃ assessment, self.assess first second none none = .ok assessment ∧
        ∀ found, assessment = some found → found ∈ assessments := by
  induction plans generalizing assessments with
  | nil => exact .nil
  | cons plan plans ih =>
    unfold assessAll at h
    obtain ⟨assessed, hassessed, h⟩ := except_bind_ok h
    obtain ⟨rest, hrest, h⟩ := except_bind_ok h
    obtain rfl := Except.ok.inj h
    refine List.pairwise_cons.mpr ⟨fun other hother => ?_, (ih hrest).imp ?_⟩
    · obtain ⟨assessment, hin, hassess⟩ := forall₂_source (mapM_ok hassessed).flip hother
      refine ⟨assessment, hassess, fun found hfound => List.mem_append_left _ ?_⟩
      exact List.mem_filterMap.mpr ⟨assessment, hin, hfound⟩
    · rintro first second ⟨assessment, hassess, hin⟩
      exact ⟨assessment, hassess, fun found hfound => List.mem_append_right _ (hin found hfound)⟩

section
variable {self : ConflictDetector} {pending : List QueuedTask} {first second : QueuedTask}

omit [TextRuntime] [Lemmatizer] [Printer] in
theorem byId_some {id : String} {entry : QueuedTask} (h : byId pending id = some entry) :
    entry ∈ pending ∧ entry.taskId = id := by
  unfold byId at h
  have hfound := List.find?_some h
  exact ⟨List.mem_reverse.mp (List.mem_of_find?_eq_some h), of_decide_eq_true hfound⟩

omit [TextRuntime] [Lemmatizer] [Printer] in
theorem exists_byId {entry : QueuedTask} (h : entry ∈ pending) :
    ∃ found, byId pending entry.taskId = some found := by
  refine Option.isSome_iff_exists.mp (List.find?_isSome.mpr ⟨entry, List.mem_reverse.mpr h, ?_⟩)
  exact decide_eq_true rfl

omit [Lemmatizer] [Printer] in
theorem preferredOrder_some {plan other : AgentPlan} {order : String × String}
    (h : preferredOrder plan other = some order) :
    order.2 = plan.taskId ∨ order.2 = other.taskId := by
  unfold preferredOrder at h
  rw [Option.ite_none_left_eq_some] at h
  obtain ⟨-, h⟩ := h
  split at h
  · exact .inl ((Option.some.inj h) ▸ rfl)
  · exact .inr ((Option.some.inj h) ▸ rfl)

omit [Lemmatizer] [Printer] in
theorem exists_conflictBlocker {assessment : ConflictAssessment}
    (hown : ∀ entry ∈ pending, OwnPlan entry) (hfirst : first ∈ pending)
    (hsecond : second ∈ pending)
    (htasks : assessment.taskIds = (first.plan.taskId, second.plan.taskId))
    (hstructural : structuralConflict assessment = true) :
    ∃ pair, conflictBlocker pending assessment = some pair ∧
      (pair.1 = first.taskId ∨ pair.1 = second.taskId) := by
  obtain ⟨one, hone⟩ := exists_byId hfirst
  obtain ⟨two, htwo⟩ := exists_byId hsecond
  obtain ⟨honeIn, honeId⟩ := byId_some hone
  obtain ⟨htwoIn, htwoId⟩ := byId_some htwo
  unfold conflictBlocker
  rw [htasks, show first.plan.taskId = first.taskId from hown first hfirst,
    show second.plan.taskId = second.taskId from hown second hsecond]
  simp only [hstructural, Bool.not_true, Bool.false_eq_true, if_false, hone, htwo]
  split
  · rename_i order horder
    refine ⟨_, rfl, ?_⟩
    cases hblocked : byId pending order.2 with
    | none => exact .inr htwoId
    | some blocked =>
      have hid : blocked.taskId = order.2 := (byId_some hblocked).2
      rcases preferredOrder_some horder with h | h
      · exact .inl (hid.trans (h.trans ((hown one honeIn).trans honeId)))
      · exact .inr (hid.trans (h.trans ((hown two htwoIn).trans htwoId)))
  · split
    · exact ⟨_, rfl, .inr htwoId⟩
    · exact ⟨_, rfl, .inl honeId⟩

variable {blockers : List (String × String)} {assessments : List ConflictAssessment}

omit [TextRuntime] [Lemmatizer] [Printer] in
theorem blockersOf_length_pos {pair : String × String} (h : pair ∈ blockers) :
    0 < (blockersOf blockers pair.1).length := by
  refine List.length_pos_of_mem (a := pair.2) ?_
  unfold blockersOf
  rw [mem_unique]
  exact List.mem_map.mpr ⟨pair, List.mem_filter.mpr ⟨h, decide_eq_true rfl⟩, rfl⟩

theorem unblocked_clear {assessment : Option ConflictAssessment}
    (hown : ∀ entry ∈ pending, OwnPlan entry) (hfirst : first ∈ pending)
    (hsecond : second ∈ pending)
    (hassess : self.assess first.plan second.plan none none = .ok assessment)
    (hin : ∀ found, assessment = some found → found ∈ assessments)
    (hfree : (blockersOf (buildBlockers pending assessments) first.taskId).length = 0)
    (hfree' : (blockersOf (buildBlockers pending assessments) second.taskId).length = 0) :
    Clear assessment := by
  intro found hfound
  by_contra hstructural
  subst hfound
  obtain ⟨pair, hpair, hblocked⟩ := exists_conflictBlocker hown hfirst hsecond
    (assess_taskIds hassess) (eq_true_of_ne_false hstructural)
  have hblocks : pair ∈ buildBlockers pending assessments :=
    List.mem_append_right _ (List.mem_filterMap.mpr ⟨found, hin found rfl, hpair⟩)
  have hpos := blockersOf_length_pos hblocks
  rcases hblocked with h | h
  · rw [h, hfree] at hpos
    omega
  · rw [h, hfree'] at hpos
    omega

omit [TextRuntime] [Lemmatizer] [Printer] in
/-- What holds of every two plans whose tasks wait for nothing holds of every two plans
that are selected together. -/
theorem selected_pairwise {R : AgentPlan → AgentPlan → Prop}
    (hpairs : pending.Pairwise fun first second =>
      (blockersOf blockers first.taskId).length = 0 →
        (blockersOf blockers second.taskId).length = 0 → R first.plan second.plan) :
    (select pending blockers).Pairwise fun first second =>
      first.2 = true → second.2 = true → R first.1.plan second.1.plan := by
  unfold select
  dsimp only
  split
  · -- a cycle is broken with one task
    split
    · exact .nil
    · refine List.pairwise_cons.mpr ⟨fun pair hpair _ hselected => ?_, ?_⟩
      · obtain ⟨entry, -, rfl⟩ := List.mem_map.mp hpair
        cases hselected
      · refine List.pairwise_map.mpr (List.pairwise_of_forall fun _ _ hselected => ?_)
        cases hselected
  · rw [List.map_map, List.pairwise_map]
    exact hpairs.imp fun hpair hfree hfree' =>
      hpair (of_decide_eq_true hfree) (of_decide_eq_true hfree')

/-- **Of two tasks that are selected together, neither has a structural conflict with the
other.** -/
theorem selected_unopposed (hown : ∀ entry ∈ pending, OwnPlan entry)
    (h : assessAll self (pending.map fun entry => entry.plan) = .ok assessments) :
    (select pending (buildBlockers pending assessments)).Pairwise fun first second =>
      first.2 = true → second.2 = true →
        ∃ assessment, self.assess first.1.plan second.1.plan none none = .ok assessment ∧
          Clear assessment := by
  have hpairs := List.pairwise_map.mp (assessAll_ok h)
  refine selected_pairwise (R := fun first second =>
    ∃ assessment, self.assess first second none none = .ok assessment ∧ Clear assessment)
    (hpairs.imp_of_mem ?_)
  intro first second hfirst hsecond hassessed hfree hfree'
  obtain ⟨assessment, hassess, hin⟩ := hassessed
  exact ⟨assessment, hassess, unblocked_clear hown hfirst hsecond hassess hin hfree hfree'⟩

omit [TextRuntime] [Lemmatizer] [Printer] in
theorem mem_select {pair : QueuedTask × Bool} (h : pair ∈ select pending blockers) :
    ∃ entry ∈ pending, pair.1 = { entry with blockedBy := blockersOf blockers entry.taskId } := by
  unfold select at h
  dsimp only at h
  split at h
  · split at h
    · cases h
    · rename_i waiting head rest heq
      have hin : pair.1 ∈ head :: rest := by
        rcases List.mem_cons.mp h with rfl | h
        · exact List.mem_cons_self
        · obtain ⟨entry, hentry, rfl⟩ := List.mem_map.mp h
          exact List.mem_cons_of_mem _ hentry
      rw [← heq] at hin
      obtain ⟨entry, hentry, heq⟩ := List.mem_map.mp hin
      exact ⟨entry, hentry, heq.symm⟩
  · rw [List.map_map] at h
    obtain ⟨entry, hentry, rfl⟩ := List.mem_map.mp h
    exact ⟨entry, hentry, rfl⟩

end

/-! ## Runs -/

/-- Every task of the wave starts on the plan it was admitted on, or less of it, and
apart from the others. -/
structure Arbitrated (detector : ConflictDetector) (wave : Wave) : Prop where
  answered : ∀ started ∈ wave.started, started.task.taskId = started.asked.taskId ∧
    ∃ plan admission, wave.input.answer started.asked = .admitted plan admission ∧
      Narrows plan started.task.plan
  apart : wave.started.Pairwise fun first second =>
    Unopposed detector first.task.plan second.task.plan ∧
      Unopposed detector second.task.plan first.task.plan

omit [Lemmatizer] [Printer] in
/-- The authority grants what it was asked about, or less, and nothing to a task whose
speculation did not land. -/
structure Sound (s : State) (input : WaveInput) : Prop where
  narrows : ∀ entry plan admission, input.answer entry = .admitted plan admission →
    Narrows entry.plan plan
  landed : ∀ entry ∈ s.pending, Speculative input entry → ∀ blockedBy plan admission,
    input.answer { entry with blockedBy } ≠ .admitted plan admission

section
variable {self : ConflictDetector} {ground : Grounding} {s t : State} {input : WaveInput}

theorem started_arbitrated {pending caughtUp : List QueuedTask}
    {assessments : List ConflictAssessment} {settled : List (Started ⊕ QueuedTask)}
    (hblank : BlanksAgree) (hsound : Sound s input) (hpending : pending ⊆ s.pending)
    (hown : ∀ entry ∈ pending, OwnPlan entry)
    (hrefreshed : List.Forall₂ (fun entry next => refresh ground input entry = some next)
      pending caughtUp)
    (hassessed : assessAll self (caughtUp.map fun entry => entry.plan) = .ok assessments)
    (hsettled : outcomes ground input (select caughtUp (buildBlockers caughtUp assessments)) =
      some settled) :
    Arbitrated self ⟨input, settled.filterMap Sum.getLeft?⟩ := by
  have hcaughtUp : ∀ entry ∈ caughtUp, OwnPlan entry := by
    intro next hnext
    obtain ⟨entry, hentry, hrefresh⟩ := forall₂_source hrefreshed hnext
    exact (refresh_some hrefresh (hown entry hentry)).2.1
  -- a task that is asked about and admitted has no open speculation
  have hstarts : ∀ pair ∈ select caughtUp (buildBlockers caughtUp assessments), ∀ started,
      (if pair.2 then settle ground input pair.1 else some (.inr pair.1)) = some (.inl started) →
        pair.2 = true ∧ started.asked = pair.1 ∧ started.task.taskId = pair.1.taskId ∧
          ∃ admission, input.answer pair.1 = .admitted started.task.plan admission := by
    intro pair hpair started h
    split at h
    · rename_i hselected
      refine ⟨hselected, settle_starts h ?_⟩
      rintro ⟨plan, admission, hanswer⟩ ⟨hopen, hrevision⟩
      obtain ⟨next, hnext, hasked⟩ := mem_select hpair
      obtain ⟨entry, hentry, hrefresh⟩ := forall₂_source hrefreshed hnext
      rw [hasked] at hopen hrevision hanswer
      obtain rfl := (refresh_some hrefresh (hown entry hentry)).2.2 hopen hrevision
      exact hsound.landed next (hpending hentry) ⟨hopen, hrevision⟩ _ _ _ hanswer
    · cases h
  have houtcomes := mapM_some hsettled
  constructor
  · intro started hstarted
    obtain ⟨outcome, houtcome, hleft⟩ := List.mem_filterMap.mp hstarted
    obtain rfl := Sum.getLeft?_eq_some_iff.mp hleft
    obtain ⟨pair, hpair, h⟩ := forall₂_source houtcomes houtcome
    obtain ⟨-, hasked, htask, admission, hanswer⟩ := hstarts pair hpair started h
    rw [hasked]
    exact ⟨htask, started.task.plan, admission, hanswer, Narrows.refl _⟩
  · refine List.pairwise_filterMap.mpr ?_
    refine forall₂_pairwise ((List.forall₂_and_left _ _).mpr ⟨fun _ hin => hin, houtcomes⟩)
      (selected_unopposed hcaughtUp hassessed) ?_
    rintro pair pair' outcome outcome' ⟨hpair, h⟩ ⟨hpair', h'⟩ hclear started hleft started' hleft'
    obtain rfl := Sum.getLeft?_eq_some_iff.mp hleft
    obtain rfl := Sum.getLeft?_eq_some_iff.mp hleft'
    obtain ⟨hselected, -, -, admission, hanswer⟩ := hstarts pair hpair started h
    obtain ⟨hselected', -, -, admission', hanswer'⟩ := hstarts pair' hpair' started' h'
    obtain ⟨assessment, hassess, hclear⟩ := hclear hselected hselected'
    have hunopposed : Unopposed self started.task.plan started'.task.plan :=
      Unopposed.mono (hsound.narrows _ _ _ hanswer) (hsound.narrows _ _ _ hanswer') hassess hclear
    exact ⟨hunopposed, hunopposed.symm hblank⟩

theorem step_some (h : step self ground s input = some t) :
    ∃ pending caughtUp assessments settled,
      pending = s.pending.filter (fun entry => entry.taskId ∉ input.stopped) ∧
      List.Forall₂ (fun entry next => refresh ground input entry = some next) pending caughtUp ∧
      assessAll self (caughtUp.map fun entry => entry.plan) = .ok assessments ∧
      outcomes ground input (select caughtUp (buildBlockers caughtUp assessments)) = some settled ∧
      (∀ entry ∈ t.pending, ∃ waiting, Sum.inr waiting ∈ settled ∧
        entry = speculate ground input waiting) ∧
      (t.waves = s.waves ∨ t.waves = s.waves ++ [⟨input, settled.filterMap Sum.getLeft?⟩]) := by
  unfold step at h
  dsimp only at h
  rw [Option.ite_none_left_eq_some] at h
  obtain ⟨-, h⟩ := h
  obtain ⟨caughtUp, hcaughtUp, h⟩ := Option.bind_eq_some_iff.mp h
  obtain ⟨assessments, hassessments, h⟩ := Option.bind_eq_some_iff.mp h
  obtain ⟨settled, hsettled, h⟩ := Option.bind_eq_some_iff.mp h
  have hwaits : ∀ entry ∈ (settled.filterMap Sum.getRight?).map (speculate ground input),
      ∃ waiting, Sum.inr waiting ∈ settled ∧ entry = speculate ground input waiting := by
    intro entry hentry
    obtain ⟨waiting, hwaiting, rfl⟩ := List.mem_map.mp hentry
    obtain ⟨outcome, houtcome, hright⟩ := List.mem_filterMap.mp hwaiting
    obtain rfl := Sum.getRight?_eq_some_iff.mp hright
    exact ⟨waiting, houtcome, rfl⟩
  refine ⟨_, caughtUp, assessments, settled, rfl, mapM_some hcaughtUp,
    toOption_eq_some hassessments, hsettled, ?_⟩
  split at h
  · rw [Option.ite_none_left_eq_some] at h
    obtain rfl := Option.some.inj h.2
    exact ⟨hwaits, .inl rfl⟩
  · obtain rfl := Option.some.inj h
    exact ⟨fun entry hentry => hwaits entry (List.mem_filter.mp hentry).1, .inr rfl⟩

/-- Every pending plan is about its task, and every wave was arbitrated. -/
def Kept (self : ConflictDetector) (s : State) : Prop :=
  (∀ entry ∈ s.pending, OwnPlan entry) ∧ ∀ wave ∈ s.waves, Arbitrated self wave

theorem kept_step (hblank : BlanksAgree) (hkept : Kept self s) (hsound : Sound s input)
    (h : step self ground s input = some t) : Kept self t := by
  obtain ⟨pending, caughtUp, assessments, settled, rfl, hrefreshed, hassessed, hsettled, hwaiting,
    hwaves⟩ := step_some h
  obtain ⟨hown, harbitrated⟩ := hkept
  have hpending : (s.pending.filter fun entry => entry.taskId ∉ input.stopped) ⊆ s.pending :=
    List.filter_sublist.subset
  constructor
  · intro entry hentry
    obtain ⟨waiting, hin, rfl⟩ := hwaiting entry hentry
    refine speculate_own ?_
    obtain ⟨pair, hpair, hpaired⟩ := forall₂_source (mapM_some hsettled) hin
    obtain ⟨next, hnext, hasked⟩ := mem_select hpair
    obtain ⟨entry, hentry, hrefresh⟩ := forall₂_source hrefreshed hnext
    have hpairOwn : OwnPlan pair.1 := by
      rw [hasked]
      exact (refresh_some hrefresh (hown entry (hpending hentry))).2.1
    split at hpaired
    · exact settle_waits hpaired hpairOwn
    · obtain rfl := Sum.inr.inj (Option.some.inj hpaired)
      exact hpairOwn
  · rcases hwaves with hsame | hmore
    · rw [hsame]
      exact harbitrated
    · rw [hmore]
      intro wave hwave
      rcases List.mem_append.mp hwave with hwave | hwave
      · exact harbitrated wave hwave
      · obtain rfl := List.mem_singleton.mp hwave
        exact started_arbitrated hblank hsound hpending (fun entry hentry =>
          hown entry (hpending hentry)) hrefreshed hassessed hsettled

/-- **Every task starts on the plan it was admitted on, or less of it, and apart from the
others of its wave, in every run whose authority grants no more than it is asked about,
and nothing to a task whose speculation did not land.** -/
theorem waves_arbitrated {tasks : List QueuedTask} {inputs : List WaveInput}
    (hblank : BlanksAgree) (hown : ∀ entry ∈ tasks, OwnPlan entry)
    (hsound : Throughout (step self ground) Sound ⟨tasks, 0, []⟩ inputs)
    (h : run (step self ground) ⟨tasks, 0, []⟩ inputs = some s) :
    ∀ wave ∈ s.waves, Arbitrated self wave := by
  have hstart : Kept self ⟨tasks, 0, []⟩ := ⟨hown, fun wave hwave => by cases hwave⟩
  have hend : Kept self s :=
    run_invariant (fun _ _ _ hkept hsound h => kept_step hblank hkept hsound h) hstart hsound h
  exact hend.2

end

end

/-! ## What a wave starts -/

def planOn (taskId file : String) : AgentPlan :=
  { taskId, objective := "edit " ++ file, expectedFiles := [file], expectedSymbols := [] }

def taskOn (taskId file : String) : QueuedTask where
  taskId
  agentId := "agent"
  plan := planOn taskId file
  planRevision := 1
  plannedRevision := "base"

/-- An iteration in which canonical is where it was, and an agent that has to write its
plan again turns to `b.ts`. -/
def onBase (answer : QueuedTask → PlanAuthorityDecision) : WaveInput where
  stopped := []
  revision := "base"
  index := ⟨[], [], [], 0⟩
  strictPlanRebase := false
  advance _ := none
  replanned _ := none
  answer
  replannedCold taskId := some (planOn taskId "b.ts")
  speculated entry := some (entry.plan, some ⟨["a.ts"], [], [], [], [], [], []⟩)
  dropped := []

def grantAsked (entry : QueuedTask) : PlanAuthorityDecision := .admitted entry.plan none

def holderWorks (_ : QueuedTask) : PlanAuthorityDecision := .deferred 1000 ["holder"] "held"

def PlanAuthorityDecision.files : PlanAuthorityDecision → Option (List String)
  | .admitted plan _ => (arbitrationFiles plan).toOption
  | .deferred _ _ _ => none

/-- The files every task of every wave was granted, and those it starts on. -/
def filesOf (s : State) : List (List (Option (List String) × Option (List String))) :=
  s.waves.map fun wave => wave.started.map fun started =>
    ((wave.input.answer started.asked).files, (arbitrationFiles started.task.plan).toOption)

theorem narrows_grantAsked [TextRuntime] {entry : QueuedTask} {plan : AgentPlan}
    {admission : Option PlanAdmission} (h : grantAsked entry = .admitted plan admission) :
    Narrows entry.plan plan := by
  obtain ⟨rfl, -⟩ := PlanAuthorityDecision.admitted.inj h
  exact Narrows.refl _

section
attribute [local instance] asciiRuntime wholePrinter plainLemmatizer

/-- Two tasks start together, each on its file. -/
theorem waves_arbitrated_two :
    ∃ s, run (step ConflictDetector.default fun _ _ => .ok none)
        ⟨[taskOn "one" "a.ts", taskOn "two" "b.ts"], 0, []⟩ [onBase grantAsked] = some s ∧
      filesOf s = [[(some ["a.ts"], some ["a.ts"]), (some ["b.ts"], some ["b.ts"])]] ∧
      ∀ wave ∈ s.waves, Arbitrated ConflictDetector.default wave := by
  have hfiles : (run (step ConflictDetector.default fun _ _ => .ok none)
      ⟨[taskOn "one" "a.ts", taskOn "two" "b.ts"], 0, []⟩ [onBase grantAsked]).map filesOf =
        some [[(some ["a.ts"], some ["a.ts"]), (some ["b.ts"], some ["b.ts"])]] := by
    decide +kernel
  obtain ⟨s, hs, hfiles⟩ := Option.map_eq_some_iff.mp hfiles
  have hsound : Sound ⟨[taskOn "one" "a.ts", taskOn "two" "b.ts"], 0, []⟩ (onBase grantAsked) := by
    refine ⟨fun entry plan admission h => narrows_grantAsked h, fun entry hentry hopen => ?_⟩
    rcases List.mem_pair.mp hentry with rfl | rfl
    · cases hopen.1
    · cases hopen.1
  refine ⟨s, hs, hfiles, waves_arbitrated blanksAgree_ascii ?_ ?_ hs⟩
  · intro entry hentry
    rcases List.mem_pair.mp hentry with rfl | rfl
    · rfl
    · rfl
  · exact ⟨hsound, fun _ _ => trivial⟩

/-- **A task that speculated while it waited, and whose speculation did not land, starts on
a plan nobody was asked about.** The authority granted `a.ts` and it works on `b.ts`. -/
theorem unlanded_speculation_started :
    ∃ s, run (step ConflictDetector.default fun _ _ => .ok none)
        ⟨[taskOn "waiter" "a.ts"], 0, []⟩ [onBase holderWorks, onBase grantAsked] = some s ∧
      (∀ input ∈ [onBase holderWorks, onBase grantAsked], ∀ entry plan admission,
        input.answer entry = .admitted plan admission → Narrows entry.plan plan) ∧
      ¬∀ wave ∈ s.waves, Arbitrated ConflictDetector.default wave := by
  have hfiles : (run (step ConflictDetector.default fun _ _ => .ok none)
      ⟨[taskOn "waiter" "a.ts"], 0, []⟩ [onBase holderWorks, onBase grantAsked]).map filesOf =
        some [[(some ["a.ts"], some ["b.ts"])]] := by
    decide
  obtain ⟨s, hs, hfiles⟩ := Option.map_eq_some_iff.mp hfiles
  refine ⟨s, hs, ?_, fun harbitrated => ?_⟩
  · intro input hinput entry plan admission h
    rcases List.mem_pair.mp hinput with rfl | rfl
    · cases h
    · exact narrows_grantAsked h
  · obtain ⟨wave, hwaves, hstarted⟩ := List.map_eq_singleton_iff.mp hfiles
    obtain ⟨started, hstarted, hpair⟩ := List.map_eq_singleton_iff.mp hstarted
    obtain ⟨hgranted, hworks⟩ := Prod.mk.inj hpair
    obtain ⟨-, plan, admission, hanswer, hnarrows⟩ :=
      (harbitrated wave (hwaves ▸ List.mem_singleton_self _)).answered started
        (hstarted ▸ List.mem_singleton_self _)
    rw [hanswer] at hgranted
    have hsub := hnarrows.files _ _ (toOption_eq_some hgranted) (toOption_eq_some hworks)
    exact absurd (hsub (List.mem_singleton_self "b.ts")) (by decide)

end

end AgenticGit.Coordinator.Waves
