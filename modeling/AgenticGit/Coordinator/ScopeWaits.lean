import AgenticGit.Lib.Runs
import AgenticGit.Lib.Acyclic
import AgenticGit.Coordinator.AdmissionRoutes
import AgenticGit.Coordinator.MidRun

/- Tasks that ask for more while they execute, in any number of runs over one lease store:
   the retry loop of `handleAgentEvent` (`coordinator.ts`) and the revising half of
   `LeasePlanAuthority.admit` (`lease-admission.ts`).

   A request to widen a plan is refused when it conflicts with another task of the run,
   and otherwise put to the authority. While the authority defers it, it stays parked: the
   task holds what it has and asks again.

   What is proved:
     1. `waits_acyclic` — the tasks that are parked on each other form no cycle, in every
        run in which no request is parked behind a task that waits for the one asking.
     2. `parked_on_each_other` — two tasks that ask for each other's file are both parked
        for good.

   Correspondence (TypeScript ↔ Lean):
     a task between `prepareTask` and its settlement ↔ `Executing`
     the approved plan on its lease             ↔ `Executing.contract`
     the `do … while` loop of `handleAgentEvent` ↔ `Executing.parked`, and `retry`
     what one call of `LeasePlanAuthority.admit` reads besides the leases ↔ `Attempt`
     a repository-wide claim that is narrowed   ↔ `narrowed`
   Nobody is stopped from outside, and a lease that is held stays active. -/
namespace AgenticGit.Coordinator.ScopeWaits
open AgenticGit.Runtime AgenticGit.Runs AgenticGit.Relations AgenticGit.Shared
open AgenticGit.CodeIntelligence Relation

/-! ## Executing tasks -/

structure Parked where
  request : ScopeChangeRequest
  revisedPlan : AgentPlan
  deriving DecidableEq, Repr

structure Executing where
  /-- The run the task is a part of. -/
  runId : String
  task : PlannedTask
  /-- The approved plan on the task's lease. -/
  contract : AgentPlan
  parked : Option Parked := none
  deriving DecidableEq, Repr

abbrev State := OrderedMap String Executing

/-- What one question to the authority depends on besides the leases. -/
structure Attempt where
  controller : PlanAdmissionController
  index : RepositoryIndex
  baseRevision : String
  baseVersion : Int
  blockedAttempts : Nat
  /-- What other open branches have landed and not merged. -/
  branchClaims : List ActivePlan
  /-- What the plans of other branches come to on this one. -/
  narrowToBranch : List ActivePlan → List ActivePlan
  resourcesInFile : String → List PlanResourceRef
  symbolRangesInFile : String → Option (List NamedRange)
  intentAssessment : IntentConflictAssessment

inductive Event where
  /-- A task that was admitted starts. -/
  | started (taskId : String) (entry : Executing)
  | settled (taskId : String)
  /-- The agent asks; `reviewed` is whether approval and ownership follow an admission. -/
  | asked (taskId : String) (request : MidRunRequest) (attempt : Attempt) (reviewed : Bool)
  /-- The loop comes round. -/
  | retry (taskId : String) (attempt : Attempt) (reviewed : Bool)
  /-- The task's repository-wide claim becomes a narrower plan. -/
  | narrowed (taskId : String) (plan : AgentPlan)

/-! ## The authority -/

inductive Decision where
  /-- The plan that is stored, and whether it is less than what was asked for. -/
  | admitted (stored : AgentPlan) (narrowed : Bool)
  | deferred
  deriving DecidableEq, Repr

def executingPlans (s : State) (taskId : String) (attempt : Attempt) : List ActivePlan :=
  ((s.entries.filter fun entry => entry.1 ≠ taskId).map fun entry =>
    ⟨entry.1, entry.2.task.agentId, entry.2.contract⟩) ++ attempt.branchClaims

section
variable [TextRuntime] [Printer] [Lemmatizer] (ground : Grounding)

/-- `LeasePlanAuthority.admit`, with `revising` and without partial admission; `none` when
it throws. -/
def revisingAnswer (s : State) (taskId : String) (task : PlannedTask) (plan : AgentPlan)
    (attempt : Attempt) : Option Decision :=
  let active := executingPlans s taskId attempt
  if active.length = 0 then some (.admitted plan false)
  -- a live widening is never forced past a repository-wide claim
  else if active.any fun entry => isBlanketClaim entry.plan then some .deferred
  else
    let active := attempt.narrowToBranch active
    if active.length = 0 then some (.admitted plan false)
    else do
      let enriched ← (verifyPlan ground plan attempt.index).toOption
      let decided ← (attempt.controller.admitPlan {
        plan := enriched
        agentId := task.agentId
        baseRevision := attempt.baseRevision
        baseVersion := attempt.baseVersion
        active
        planRevision := some (task.planRevision + 1)
        blockedAttempts := some attempt.blockedAttempts
        partialAdmission := some false
        resourcesInFile := some attempt.resourcesInFile
        symbolRangesInFile := some attempt.symbolRangesInFile
        intentAssessment := some attempt.intentAssessment }).toOption
      if !planAdmissionApproved decided then return .deferred
      else if planAdmissionPartial decided then
        let granted ←
          (reducePlanScope enriched (decided.deferred.map DeferredResource.ref)).toOption
        return .admitted granted true
      else return .admitted enriched false

/-! ## The coordinator -/

/-- Whether the plan conflicts with what another task of the run works on. -/
def opposedInRun (s : State) (taskId runId : String) (self : ConflictDetector)
    (plan : AgentPlan) : Bool :=
  (s.entries.filter fun entry => entry.1 ≠ taskId && entry.2.runId = runId).any fun entry =>
    match self.assess plan entry.2.task.plan none none with
    | .ok (some assessment) => structuralConflict assessment
    | _ => false

/-- What follows an admission: the plan is put in force, or the request is refused with its
plan on the lease. -/
def conclude (entry : Executing) (plan stored : AgentPlan) (granted : Bool) : Executing :=
  if granted then
    { entry with
      contract := stored, parked := none
      task := { entry.task with plan, planRevision := entry.task.planRevision + 1 } }
  else { entry with contract := stored, parked := none }

/-- What an answer does to a task that asked for a plan; a scope change that is deferred is
parked, any other request is refused. -/
def follow (entry : Executing) (plan : AgentPlan) (parked : Option Parked) (reviewed : Bool) :
    Option Decision → Executing
  | some (.admitted stored narrowed) => conclude entry plan stored (reviewed && !narrowed)
  | some .deferred => { entry with parked }
  | none => { entry with parked := none }

def loopOf (request : MidRunRequest) (revisedPlan : AgentPlan) : Option Parked :=
  match request with
  | .scopeChange request => some ⟨request, revisedPlan⟩
  | _ => none

def needsRoom : MidRunRequest → Bool
  | .scopeRelease _ _ => false
  | _ => true

/-- The plan a request puts to the authority, if it gets that far. -/
def submitted (s : State) (taskId : String) (entry : Executing) (request : MidRunRequest)
    (attempt : Attempt) : Option AgentPlan := do
  let plan ← request.revise ground attempt.index entry.task
  if needsRoom request && opposedInRun s taskId entry.runId attempt.controller.conflicts plan then
    none
  else return plan

def step (s : State) : Event → Option State
  | .started taskId entry =>
    if s.has taskId ∨ entry.parked.isSome then none else some (s.set taskId entry)
  | .settled taskId => do
    let entry ← s.get? taskId
    if entry.parked.isSome then none else return s.delete taskId
  | .asked taskId request attempt reviewed => do
    let entry ← s.get? taskId
    if entry.parked.isSome then none
    else
      match submitted ground s taskId entry request attempt with
      | none => return s
      | some plan =>
        return s.set taskId (follow entry plan (loopOf request plan) reviewed
          (revisingAnswer ground s taskId entry.task plan attempt))
  | .retry taskId attempt reviewed => do
    let entry ← s.get? taskId
    let parked ← entry.parked
    return s.set taskId (follow entry parked.revisedPlan (some parked) reviewed
      (revisingAnswer ground s taskId entry.task parked.revisedPlan attempt))
  | .narrowed taskId plan => do
    let entry ← s.get? taskId
    if isBlanketClaim entry.contract then return s.set taskId { entry with contract := plan }
    else none

/-! ## Waiting for each other -/

def resourcesOf (request : ScopeChangeRequest) : List PlanResourceRef :=
  [ResourceType.file, .symbol, .api, .schema, .configuration, .test, .service].flatMap fun type =>
    refsOf type (request.names type)

omit [Printer] [Lemmatizer] in
/-- Whether a plan holds a resource: it names it, or its claim does. -/
def holds (plan : AgentPlan) (ref : PlanResourceRef) : Bool :=
  (claimedAs plan ref).isSome || (isBlanketClaim plan && ref.resourceType ≠ .file) ||
    (ref.resourceType = .file &&
      decide ((claimOccupiesPath plan ref.resourceId).toOption = some true))

def asksFor (request : ScopeChangeRequest) (contract : AgentPlan) : Bool :=
  (resourcesOf request).any (holds contract)

/-- The first task is parked, and something it asks for is held by the second. -/
def Waits (s : State) (first second : String) : Prop :=
  first ≠ second ∧ ∃ entry ∈ s.get? first, ∃ other ∈ s.get? second, ∃ parked ∈ entry.parked,
    asksFor parked.request other.contract = true

instance (s : State) (first second : String) : Decidable (Waits s first second) :=
  inferInstanceAs (Decidable (first ≠ second ∧ ∃ entry ∈ s.get? first,
    ∃ other ∈ s.get? second, ∃ parked ∈ entry.parked,
      asksFor parked.request other.contract = true))

/-- The authority defers a scope change that gets as far as the authority. -/
def Defers (s : State) (taskId : String) (request : ScopeChangeRequest) (attempt : Attempt) :
    Prop :=
  ∃ entry plan, s.get? taskId = some entry ∧
    submitted ground s taskId entry (.scopeChange request) attempt = some plan ∧
      revisingAnswer ground s taskId entry.task plan attempt = some .deferred

/-- No request is parked behind a task that waits for the one asking, and a claim that is
narrowed holds nothing that it did not hold. -/
def Orderly (s : State) : Event → Prop
  | .asked taskId (.scopeChange request) attempt _ =>
    Defers ground s taskId request attempt → ∀ holder, holder ≠ taskId →
      ∀ other ∈ s.get? holder, asksFor request other.contract = true →
        ¬TransGen (Waits s) holder taskId
  | .narrowed taskId plan => ∀ entry ∈ s.get? taskId, ∀ ref,
      holds plan ref = true → holds entry.contract ref = true
  | _ => True

section
variable {ground : Grounding} {s t : State} {k : String} {entry : Executing}

omit [Printer] [Lemmatizer] in
theorem asksFor_mono {request : ScopeChangeRequest} {contract wider : AgentPlan}
    (hcontract : ∀ ref, holds contract ref = true → holds wider ref = true)
    (h : asksFor request contract = true) : asksFor request wider = true := by
  obtain ⟨ref, href, hheld⟩ := List.any_eq_true.mp h
  exact List.any_eq_true.mpr ⟨ref, href, hcontract ref hheld⟩

omit [Printer] [Lemmatizer] in
theorem waits_set_of_ne {x y : String} (hx : x ≠ k) (hy : y ≠ k)
    (h : Waits (s.set k entry) x y) : Waits s x y := by
  unfold Waits at h ⊢
  rw [OrderedMap.get?_set, OrderedMap.get?_set, if_neg hx, if_neg hy] at h
  exact h

omit [Printer] [Lemmatizer] in
theorem acyclic_set_working (hworking : entry.parked = none) (h : Acyclic (Waits s)) :
    Acyclic (Waits (s.set k entry)) := by
  have hsink : ∀ y, ¬Waits (s.set k entry) k y := by
    rintro y ⟨-, own, hown, -, -, parked, hparked, -⟩
    rw [OrderedMap.get?_set, if_pos rfl] at hown
    obtain rfl := Option.some.inj hown
    cases hworking.symm.trans hparked
  refine h.of_sink hsink fun x y hy hxy => waits_set_of_ne ?_ hy hxy
  rintro rfl
  exact hsink y hxy

omit [Printer] [Lemmatizer] in
/-- A task whose plan gets no wider, and that is parked as it was, waits and is waited for
as it was at most. -/
theorem waits_of_set {entry' : Executing} (hentry : s.get? k = some entry)
    (hparked : entry'.parked = entry.parked)
    (hcontract : ∀ ref, holds entry'.contract ref = true → holds entry.contract ref = true)
    {x y : String} (h : Waits (s.set k entry') x y) : Waits s x y := by
  obtain ⟨hne, one, hone, other, hother, parked, hin, hasks⟩ := h
  have hold : ∀ {z : String} {found : Executing}, found ∈ (s.set k entry').get? z →
      ∃ before, s.get? z = some before ∧ found.parked = before.parked ∧
        ∀ ref, holds found.contract ref = true → holds before.contract ref = true := by
    intro z found hfound
    rw [Option.mem_def, OrderedMap.get?_set] at hfound
    split at hfound
    · rename_i hz
      obtain rfl := Option.some.inj hfound
      exact ⟨entry, hz ▸ hentry, hparked, hcontract⟩
    · exact ⟨found, hfound, rfl, fun _ hheld => hheld⟩
  obtain ⟨one', hone', hsame, -⟩ := hold hone
  obtain ⟨other', hother', -, hwider⟩ := hold hother
  exact ⟨hne, one', hone', other', hother', parked, hsame ▸ hin, asksFor_mono hwider hasks⟩

omit [Printer] [Lemmatizer] in
theorem acyclic_set_parked {parked : Parked} (hentry : s.get? k = some entry)
    (hholders : ∀ holder, holder ≠ k → ∀ other ∈ s.get? holder,
      asksFor parked.request other.contract = true → ¬TransGen (Waits s) holder k)
    (h : Acyclic (Waits s)) :
    Acyclic (Waits (s.set k { entry with parked := some parked })) := by
  refine h.of_targets (k := k) ?_ ?_
  · intro x y hxy
    by_cases hx : x = k
    · exact .inr hx
    · refine .inl ?_
      obtain ⟨hne, one, hone, other, hother, hwaits⟩ := hxy
      rw [Option.mem_def, OrderedMap.get?_set, if_neg hx] at hone
      rw [Option.mem_def, OrderedMap.get?_set] at hother
      split at hother
      · rename_i hy
        obtain rfl := Option.some.inj hother
        exact ⟨hne, one, hone, entry, hy ▸ hentry, hwaits⟩
      · exact ⟨hne, one, hone, other, hother, hwaits⟩
  · rintro y ⟨hne, own, hown, other, hother, asked, hasked, hasks⟩ hback
    rw [Option.mem_def, OrderedMap.get?_set, if_pos rfl] at hown
    obtain rfl := Option.some.inj hown
    obtain rfl := Option.some.inj hasked
    rw [Option.mem_def, OrderedMap.get?_set, if_neg (Ne.symm hne)] at hother
    rcases reflTransGen_iff_eq_or_transGen.mp hback with heq | hpath
    · exact hne heq
    · exact hholders y (Ne.symm hne) other hother hasks hpath

omit [TextRuntime] [Printer] [Lemmatizer] in
theorem follow_parked (entry : Executing) (plan : AgentPlan) (parked : Option Parked) (reviewed : Bool)
    (answer : Option Decision) :
    (follow entry plan parked reviewed answer).parked = none ∨
      (answer = some .deferred ∧
        follow entry plan parked reviewed answer = { entry with parked }) := by
  cases answer with
  | none => exact .inl rfl
  | some decision =>
    cases decision with
    | deferred => exact .inr ⟨rfl, rfl⟩
    | admitted stored narrowed =>
      refine .inl ?_
      unfold follow conclude
      dsimp only
      split <;> rfl

theorem acyclic_asked {request : MidRunRequest} {attempt : Attempt} {reviewed : Bool}
    (hacyclic : Acyclic (Waits s)) (horderly : Orderly ground s (.asked k request attempt reviewed))
    (h : step ground s (.asked k request attempt reviewed) = some t) : Acyclic (Waits t) := by
  obtain ⟨entry, hentry, h⟩ := Option.bind_eq_some_iff.mp h
  rw [Option.ite_none_left_eq_some] at h
  obtain ⟨hworking, h⟩ := h
  have hworking : entry.parked = none := Option.not_isSome_iff_eq_none.mp hworking
  split at h
  · obtain rfl := Option.some.inj h
    exact hacyclic
  · rename_i plan hsubmitted
    obtain rfl := Option.some.inj h
    rcases follow_parked entry plan (loopOf request plan) reviewed
      (revisingAnswer ground s k entry.task plan attempt) with hfree | ⟨hdeferred, hparked⟩
    · exact acyclic_set_working hfree hacyclic
    · rw [hparked]
      cases request with
      | replan proposed reason => exact acyclic_set_working rfl hacyclic
      | scopeRelease request working => exact acyclic_set_working rfl hacyclic
      | scopeChange request =>
        exact acyclic_set_parked hentry (horderly ⟨entry, plan, hentry, hsubmitted, hdeferred⟩)
          hacyclic

theorem acyclic_retry {attempt : Attempt} {reviewed : Bool} (hacyclic : Acyclic (Waits s))
    (h : step ground s (.retry k attempt reviewed) = some t) : Acyclic (Waits t) := by
  obtain ⟨entry, hentry, h⟩ := Option.bind_eq_some_iff.mp h
  obtain ⟨parked, hparked, h⟩ := Option.bind_eq_some_iff.mp h
  obtain rfl := Option.some.inj h
  rcases follow_parked entry parked.revisedPlan (some parked) reviewed
    (revisingAnswer ground s k entry.task parked.revisedPlan attempt) with hfree | ⟨-, hstill⟩
  · exact acyclic_set_working hfree hacyclic
  · rw [hstill]
    refine hacyclic.mono fun x y hxy => waits_of_set hentry ?_ ?_ hxy
    · exact hparked.symm
    · exact fun _ hheld => hheld

/-- **An orderly step closes no cycle.** -/
theorem acyclic_step {event : Event} (hacyclic : Acyclic (Waits s))
    (horderly : Orderly ground s event) (h : step ground s event = some t) :
    Acyclic (Waits t) := by
  cases event with
  | started taskId entry =>
    unfold step at h
    rw [Option.ite_none_left_eq_some, not_or] at h
    obtain ⟨⟨-, hworking⟩, h⟩ := h
    obtain rfl := Option.some.inj h
    exact acyclic_set_working (Option.not_isSome_iff_eq_none.mp hworking) hacyclic
  | settled taskId =>
    obtain ⟨entry, -, h⟩ := Option.bind_eq_some_iff.mp h
    rw [Option.ite_none_left_eq_some] at h
    obtain rfl := Option.some.inj h.2
    refine hacyclic.mono ?_
    rintro x y ⟨hne, one, hone, other, hother, hwaits⟩
    rw [Option.mem_def, OrderedMap.get?_delete, Option.ite_none_left_eq_some] at hone hother
    exact ⟨hne, one, hone.2, other, hother.2, hwaits⟩
  | asked taskId request attempt reviewed => exact acyclic_asked hacyclic horderly h
  | retry taskId attempt reviewed => exact acyclic_retry hacyclic h
  | narrowed taskId plan =>
    obtain ⟨entry, hentry, h⟩ := Option.bind_eq_some_iff.mp h
    rw [Option.ite_none_right_eq_some] at h
    obtain rfl := Option.some.inj h.2
    refine hacyclic.mono fun x y hxy => waits_of_set hentry ?_ ?_ hxy
    · rfl
    · exact horderly entry hentry

/-- **No tasks are parked on each other in a cycle, in any state of a run in which no
request is parked behind a task that waits for the one asking.** -/
theorem waits_acyclic {events : List Event}
    (hworking : ∀ taskId entry, s.get? taskId = some entry → entry.parked = none)
    (horderly : Throughout (step ground) (Orderly ground) s events)
    (h : run (step ground) s events = some t) : Acyclic (Waits t) := by
  have hstart : Acyclic (Waits s) := by
    refine acyclic_of_empty ?_
    rintro x y ⟨-, entry, hentry, -, -, parked, hparked, -⟩
    cases (hworking x entry hentry).symm.trans hparked
  exact run_invariant (fun _ _ _ hacyclic horderly h => acyclic_step hacyclic horderly h)
    hstart horderly h

end

end

/-! ## Two tasks that ask for each other's file -/

def taskOver (taskId file : String) : Executing :=
  let plan : AgentPlan :=
    { taskId, objective := "edit " ++ file, expectedFiles := [file], expectedSymbols := [] }
  { runId := taskId, task := ⟨taskId, "agent", plan, 1, none, []⟩, contract := plan }

def twoTasks : State :=
  .ofList [("first", taskOver "first" "a.ts"), ("second", taskOver "second" "b.ts")]

def plainAttempt [TextRuntime] : Attempt where
  controller := freshController
  index := ⟨[], [], [], 0⟩
  baseRevision := "r1"
  baseVersion := 1
  blockedAttempts := 0
  branchClaims := []
  narrowToBranch active := active
  resourcesInFile _ := []
  symbolRangesInFile _ := none
  intentAssessment _ _ := none

def oneMore (taskId file : String) : ScopeChangeRequest :=
  { id := "s", taskId, additionalFiles := [file], reason := "needed" }

def widen [TextRuntime] (taskId file : String) : Event :=
  .asked taskId (.scopeChange (oneMore taskId file)) plainAttempt true

section
attribute [local instance] asciiRuntime wholePrinter plainLemmatizer

/-- The first task is parked behind the second, which works. -/
theorem waits_acyclic_one :
    ∃ t, run (step fun _ _ => .ok none) twoTasks [widen "first" "b.ts"] = some t ∧
      Waits t "first" "second" ∧ Acyclic (Waits t) := by
  have hwaits : (run (step fun _ _ => .ok none) twoTasks [widen "first" "b.ts"]).map
      (fun t => decide (Waits t "first" "second")) = some true := by
    decide +kernel
  obtain ⟨t, ht, hwaits⟩ := Option.map_eq_some_iff.mp hwaits
  have hworking : ∀ taskId entry, twoTasks.get? taskId = some entry → entry.parked = none := by
    intro taskId entry hentry
    rcases List.mem_pair.mp (OrderedMap.mem_of_get?_ofList hentry) with h | h
    · obtain ⟨-, rfl⟩ := Prod.mk.inj h
      rfl
    · obtain ⟨-, rfl⟩ := Prod.mk.inj h
      rfl
  have horderly : Throughout (step fun _ _ => .ok none) (Orderly fun _ _ => .ok none) twoTasks
      [widen "first" "b.ts"] := by
    refine ⟨?_, fun _ _ => trivial⟩
    intro _ holder _ other _ _ hpath
    -- nobody is parked yet
    obtain ⟨z, hz, -⟩ := TransGen.head'_iff.mp hpath
    obtain ⟨-, entry, hentry, -, -, parked, hparked, -⟩ := hz
    cases (hworking holder entry hentry).symm.trans hparked
  exact ⟨t, ht, of_decide_eq_true hwaits, waits_acyclic hworking horderly ht⟩

/-- **Two tasks, each of which asks for the file of the other, are both parked, and stay so
however often they ask again.** -/
theorem parked_on_each_other :
    ∃ t, run (step fun _ _ => .ok none) twoTasks [widen "first" "b.ts", widen "second" "a.ts",
        .retry "first" plainAttempt true, .retry "second" plainAttempt true] = some t ∧
      ¬Acyclic (Waits t) := by
  have hwaits : (run (step fun _ _ => .ok none) twoTasks [widen "first" "b.ts",
      widen "second" "a.ts", .retry "first" plainAttempt true,
      .retry "second" plainAttempt true]).map
        (fun t => decide (Waits t "first" "second" ∧ Waits t "second" "first")) = some true := by
    decide +kernel
  obtain ⟨t, ht, hwaits⟩ := Option.map_eq_some_iff.mp hwaits
  obtain ⟨hfirst, hsecond⟩ := of_decide_eq_true hwaits
  exact ⟨t, ht, fun hacyclic => hacyclic "first" (.tail (.single hfirst) hsecond)⟩

end

end AgenticGit.Coordinator.ScopeWaits
