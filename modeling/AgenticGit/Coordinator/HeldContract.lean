import AgenticGit.Coordinator.BlanketHolders
import AgenticGit.Coordinator.Collection

/- The plan a task is held to and the contract on its lease, while the task runs
   (`coordinator.ts`, `blanket-claim.ts`, `lease-admission.ts`).

   A revision of the plan is computed, put to the plan authority, which stores it on the
   lease when it admits it, reviewed, given its ownership, and only then put in force.
   Beside the revisions, which come one after another, a watcher narrows a
   repository-wide claim: it stores the narrowed plan and then puts it in force.

   What is proved:
     1. `held_to_contract` — the plan in force is the one on the lease whenever nothing is
        being decided, a request that is refused changes nothing, and no tick undoes a
        decision, in every run in which nothing is refused once it was admitted, and no
        decision falls between a tick's start and its end.
     2. `contract_departed` — without the one, and without the other, it is not so.

   Correspondence (TypeScript ↔ Lean):
     `handleAgentEvent`, `handleReplanProposal`, `handleScopeRelease`, and
       `widenFrozenClaim`                    ↔ a `Revision`, and the steps `begin` to
       `answered`; a release begins once it has read the working tree
     `lease.plan`, when it is approved       ↔ `Terms.contract`; the lease stays active
     the task's leases of the ownership service ↔ `Terms.ledger`
     a tick of `watchBlanketClaim`, and `freezeBlanketClaim`, which it awaits ↔ `Tick`,
       and the steps `tickStarted` to `tickAdopted`
   What the holder is told and what is recorded is left out. -/
namespace AgenticGit.Coordinator.HeldContract
open AgenticGit.Runtime AgenticGit.Runs AgenticGit.Shared AgenticGit.CodeIntelligence
open AgenticGit.Coordinator.BlanketHolders

/-! ## What a repository-wide claim becomes -/

/-- The directory of a path, with its slash; empty at the root. -/
def directoryOf (file : String) : String :=
  String.ofList (file.toList.reverse.dropWhile (· ≠ '/')).reverse

def freezePlanFromWorkingChanges (plan : AgentPlan) (changes : List String) :
    Except PathError AgentPlan := do
  let changed ← changes.mapM normalizeRepositoryPath
  let files := sortStrings (unique (plan.expectedFiles ++ changed))
  let directories := sortStrings (unique ((files.map directoryOf).filter (· ≠ "")))
  return { plan with expectedFiles := files, claim := some (.frozen directories) }

/-- Whether a path a model produced can be used as a repository path at all. -/
def usableRepositoryPath (value : String) : Bool :=
  let trimmed := trim value
  if trimmed = "" || trimmed.toList.getLast? = some '/' then false
  else if trimmed.toList.head? = some '/' || hasDriveLetter (forwardSlashes trimmed) then false
  else
    match normalizeRepositoryPath trimmed with
    | .ok normalized => normalized ≠ "" && ".." ∉ normalized.splitOn "/"
    | .error _ => false

/-- The plan of a holder that said what it needs; what it was seen in besides is held
whole. -/
def declaredPlanFromClaim (plan : AgentPlan) (declaration : HolderDeclaration)
    (observed : List String) : Except PathError (Option AgentPlan) := do
  if !isBlanketClaim plan then return none
  let said ← uniqueRepositoryPaths (declaration.files.filter usableRepositoryPath)
  let symbols := uniqueStrings declaration.symbols
  if said.length = 0 ∨ symbols.length = 0 then return none
  let touched ← uniqueRepositoryPaths (observed.filter usableRepositoryPath)
  let files ← uniqueRepositoryPaths (said ++ touched ++ plan.expectedFiles)
  return some { plan with
    expectedFiles := files
    expectedSymbols := symbols
    declared := some { plan.declared.getD {} with symbols := some symbols }
    claim := some (.declared (touched.filter (· ∉ said))) }

/-- What the authority finds when it narrows a claim. -/
structure Narrowing where
  /-- What the holder said when it was asked, if it was, and did. -/
  declaration : Option HolderDeclaration
  /-- The approved plans on the other leases. -/
  active : List AgentPlan
  /-- Whether the plan the holder declared is admitted beside those, and saved. -/
  admits : AgentPlan → Bool
  /-- The paths with changes in the holder's working tree. -/
  observed : List String
  estimatedFiles : List String

def occupiedElsewhere (active : List AgentPlan) (file : String) : Except PathError Bool :=
  active.anyM fun plan => do
    return (← claimOccupiesPath plan file) || file ∈ (← uniqueRepositoryPaths plan.expectedFiles)

def declareBlanketClaim (plan : AgentPlan) (found : Narrowing) (declaration : HolderDeclaration) :
    Except PathError (Option AgentPlan) := do
  let touched ← uniqueRepositoryPaths (found.observed.filter usableRepositoryPath)
  if ← touched.anyM (occupiedElsewhere found.active) then return none
  let kept ← (declaration.files.filter usableRepositoryPath).filterM fun file => do
    return !(← occupiedElsewhere found.active (← normalizeRepositoryPath file))
  match ← declaredPlanFromClaim plan ⟨kept, declaration.symbols⟩ found.observed with
  | none => return none
  | some converted => return if found.admits converted then some converted else none

/-- What a claim is narrowed to, less the files that were given back. -/
def freezeBlanketClaim (plan : AgentPlan) (givenBack : List String) (found : Narrowing) :
    Except PathError (Option AgentPlan) := do
  let held := fun files => do
    if givenBack = [] then return files
    else return (← uniqueRepositoryPaths files).filter (· ∉ givenBack)
  let plan := { plan with expectedFiles := ← held plan.expectedFiles }
  let estimatedFiles ← held found.estimatedFiles
  let declared ← match found.declaration with
    | none => pure none
    | some declaration => declareBlanketClaim plan found declaration
  match declared with
  | some converted => return some converted
  | none =>
    let narrowTo := if 0 < found.observed.length then found.observed else estimatedFiles
    if narrowTo.length = 0 then return none
    else return some (← freezePlanFromWorkingChanges plan narrowTo)

/-! ## What a task is held to -/

/-- The four places that say what a running task may do. -/
structure Terms where
  /-- The approved plan on the task's lease. -/
  contract : Option AgentPlan
  /-- The plan in force, its revision and the grants of its decision. -/
  task : PlannedTask
  /-- What the ownership service holds for the task. -/
  ledger : List ResourceLease
  deriving DecidableEq, Repr

/-- What the plan in force may be revised for. -/
inductive Revision where
  | asked (request : MidRunRequest)
  /-- What is collected reaches outside a frozen or declared claim. -/
  | widenFrozen (changeSet : ChangeSet)
  deriving DecidableEq, Repr

inductive Phase where
  /-- Nothing is stored yet. -/
  | asking
  /-- The authority stored the plan. -/
  | admitted
  | inForce
  deriving DecidableEq, Repr

structure Deciding where
  revision : Revision
  revisedPlan : AgentPlan
  phase : Phase
  /-- How things stood when it was asked for. -/
  before : Terms
  deriving DecidableEq, Repr

inductive TickPhase where
  | started
  /-- The lease has been read; the files that were given back by then. -/
  | observing (givenBack : List String)
  /-- The plan the authority answered with, which is on the lease. -/
  | answered (frozen : AgentPlan)
  deriving DecidableEq, Repr

def TickPhase.isAnswered : TickPhase → Bool
  | .answered _ => true
  | _ => false

structure Tick where
  /-- The plan the tick was handed. -/
  plan : AgentPlan
  /-- The revision that was in force when it started. -/
  planRevision : Int
  phase : TickPhase
  deriving DecidableEq, Repr

structure Answer where
  granted : Bool
  before : Terms
  after : Terms
  deriving DecidableEq, Repr

structure State extends Terms where
  deciding : Option Deciding := none
  tick : Option Tick := none
  answers : List Answer := []
  /-- For every tick that put a plan in force: the revision it started from, and the one it
  replaced. -/
  adoptions : List (Int × Int) := []
  deriving DecidableEq, Repr

inductive Event where
  | begin (revision : Revision) (index : RepositoryIndex)
  /-- The authority stores the plan; without an index when nothing else executes. -/
  | admitted (index : Option RepositoryIndex)
  /-- The request is refused, or something throws. -/
  | refused
  /-- The plan is put in force; the leases are handed out, or taken back. -/
  | granted (leases : List ResourceLease)
  | answered
  | tickStarted
  /-- The lease is read. -/
  | tickRead
  | tickStored (found : Narrowing)
  /-- The save was stale. -/
  | tickRetried
  /-- There is nothing to narrow, or something throws. -/
  | tickStopped
  /-- The narrowed plan is put in force; no leases when they cannot be had. -/
  | tickAdopted (leases : List ResourceLease)

section
variable [TextRuntime] (ground : Grounding)

def Revision.revise (index : RepositoryIndex) (task : PlannedTask) : Revision → Option AgentPlan
  | .asked request => request.revise ground index task
  | .widenFrozen changeSet => do
    let widened ← widenFrozenClaim task changeSet true
    if widened.planRevision = task.planRevision then none else return widened.plan

def Revision.grants (held leases : List ResourceLease) : Revision → List ResourceLease
  | .asked request => request.grants held leases
  | .widenFrozen _ => held

def storedPlan (plan : AgentPlan) : Option RepositoryIndex → Option AgentPlan
  | none => some plan
  | some index => (verifyPlan ground plan index).toOption

def Terms.putInForce (terms : Terms) (plan : AgentPlan) (grants ledger : List ResourceLease) :
    Terms :=
  { terms with
    task := { terms.task with
      plan, planRevision := terms.task.planRevision + 1, ownershipGrants := grants }
    ledger }

/-- What an authority that read the lease answers a tick. -/
def readPhase (contract : Option AgentPlan) (plan : AgentPlan) : TickPhase :=
  match contract with
  | none => .observing []
  | some stored =>
    -- already converted by somebody else
    if stored.taskId = plan.taskId ∧ !isBlanketClaim stored then .answered stored
    else
      match stored.claim with
      | some (.blanket released) => .observing (released.getD [])
      | _ => .observing []

def step (s : State) : Event → Option State
  | .begin revision index =>
    match s.deciding with
    | some _ => none
    | none =>
      match revision, revision.revise ground index s.task with
      | _, some revisedPlan =>
        some { s with deciding := some ⟨revision, revisedPlan, .asking, s.toTerms⟩ }
      | .asked _, none =>
        some { s with answers := s.answers ++ [⟨false, s.toTerms, s.toTerms⟩] }
      | .widenFrozen _, none => none
  | .admitted index => do
    let deciding ← s.deciding
    if deciding.phase = .asking then
      let stored ← storedPlan ground deciding.revisedPlan index
      return { s with contract := stored, deciding := some { deciding with phase := .admitted } }
    else none
  | .refused => do
    let deciding ← s.deciding
    return { s with
      deciding := none, answers := s.answers ++ [⟨false, deciding.before, s.toTerms⟩] }
  | .granted leases => do
    let deciding ← s.deciding
    if deciding.phase = .admitted then
      return { s with
        toTerms := s.toTerms.putInForce deciding.revisedPlan
          (deciding.revision.grants s.task.ownershipGrants leases)
          (deciding.revision.grants s.ledger leases)
        deciding := some { deciding with phase := .inForce } }
    else none
  | .answered => do
    let deciding ← s.deciding
    if deciding.phase = .inForce then
      return { s with
        deciding := none, answers := s.answers ++ [⟨true, deciding.before, s.toTerms⟩] }
    else none
  | .tickStarted =>
    if s.tick.isNone ∧ isBlanketClaim s.task.plan then
      some { s with tick := some ⟨s.task.plan, s.task.planRevision, .started⟩ }
    else none
  | .tickRead => do
    let tick ← s.tick
    if tick.phase = .started then
      return { s with tick := some { tick with phase := readPhase s.contract tick.plan } }
    else none
  | .tickStored found => do
    let tick ← s.tick
    match tick.phase with
    | .observing givenBack =>
      let frozen ← (← (freezeBlanketClaim tick.plan givenBack found).toOption)
      return { s with contract := frozen, tick := some { tick with phase := .answered frozen } }
    | _ => none
  | .tickRetried => do
    let tick ← s.tick
    match tick.phase with
    | .observing _ => return { s with tick := some { tick with phase := .started } }
    | _ => none
  | .tickStopped => do
    let _ ← s.tick
    return { s with tick := none }
  | .tickAdopted leases => do
    let tick ← s.tick
    match tick.phase with
    | .answered frozen =>
      return { s with
        toTerms := s.toTerms.putInForce frozen (s.task.ownershipGrants ++ leases)
          (s.ledger ++ leases)
        tick := none
        adoptions := s.adoptions ++ [(tick.planRevision, s.task.planRevision)] }
    | _ => none

/-! ## Being held to the contract -/

/-- A plan on the lease declares what another plan does, up to grounding and enrichment. -/
def Declares (stored plan : AgentPlan) : Prop :=
  stored = plan ∨ ∃ index, verifyPlan ground plan index = .ok stored

def Agreed (terms : Terms) : Prop :=
  ∀ stored, terms.contract = some stored → Declares ground stored terms.task.plan

/-- What is in force is on the lease whenever nothing is being decided, a request that is
refused changes nothing, and a tick replaces only the plan it started from. -/
structure HeldToContract (s : State) : Prop where
  agreed : s.deciding = none → s.tick = none → Agreed ground s.toTerms
  rejected : ∀ answer ∈ s.answers, answer.granted = false → answer.after = answer.before
  adopted : ∀ adoption ∈ s.adoptions, adoption.1 = adoption.2

/-- A tick's plan is on the lease, and not in force yet. -/
def Answered (s : State) : Prop := ∃ tick ∈ s.tick, tick.phase.isAnswered = true

instance (s : State) : Decidable (Answered s) :=
  inferInstanceAs (Decidable (∃ tick ∈ s.tick, tick.phase.isAnswered = true))

/-- Nothing is being decided, and the plan a tick started from is still in force. -/
def Undisturbed (s : State) : Prop :=
  s.deciding = none ∧ ∀ tick ∈ s.tick, tick.planRevision = s.task.planRevision

instance (s : State) : Decidable (Undisturbed s) :=
  inferInstanceAs (Decidable (s.deciding = none ∧
    ∀ tick ∈ s.tick, tick.planRevision = s.task.planRevision))

/-- Nothing is refused once it was admitted, and no decision falls between what a tick
starts from and what it puts in force. -/
def Orderly (s : State) : Event → Prop
  | .begin _ _ => ¬Answered s
  | .refused => ∀ deciding ∈ s.deciding, deciding.phase = .asking
  | .tickRead => ∀ tick ∈ s.tick,
      (readPhase s.contract tick.plan).isAnswered = true → Undisturbed s
  | .tickStored _ => Undisturbed s
  | .tickStopped => ¬Answered s
  | _ => True

instance (s : State) : DecidablePred (Orderly s)
  | .begin _ _ => inferInstanceAs (Decidable ¬Answered s)
  | .refused => inferInstanceAs (Decidable (∀ deciding ∈ s.deciding, deciding.phase = .asking))
  | .tickRead => inferInstanceAs (Decidable (∀ tick ∈ s.tick,
      (readPhase s.contract tick.plan).isAnswered = true → Undisturbed s))
  | .tickStored _ => inferInstanceAs (Decidable (Undisturbed s))
  | .tickStopped => inferInstanceAs (Decidable ¬Answered s)
  | .admitted _ | .granted _ | .answered | .tickStarted | .tickRetried | .tickAdopted _ =>
    isTrue trivial

def PhaseKept (terms : Terms) (deciding : Deciding) : Prop :=
  match deciding.phase with
  | .asking => terms = deciding.before ∧ Agreed ground terms
  | .admitted => ∃ stored, terms.contract = some stored ∧
      Declares ground stored deciding.revisedPlan
  | .inForce => Agreed ground terms

structure Kept (s : State) : Prop where
  idle : s.deciding = none → ¬Answered s → Agreed ground s.toTerms
  deciding : ∀ deciding, s.deciding = some deciding →
    ¬Answered s ∧ PhaseKept ground s.toTerms deciding
  answered : ∀ tick frozen, s.tick = some tick → tick.phase = .answered frozen →
    s.contract = some frozen ∧ tick.planRevision = s.task.planRevision
  rejected : ∀ answer ∈ s.answers, answer.granted = false → answer.after = answer.before
  adopted : ∀ adoption ∈ s.adoptions, adoption.1 = adoption.2

section
variable {ground : Grounding} {s t : State}

omit [TextRuntime] in
theorem not_answered_iff : ¬Answered s ↔
    ∀ tick frozen, s.tick = some tick → tick.phase ≠ .answered frozen := by
  constructor
  · intro hfree tick frozen htick hphase
    exact hfree ⟨tick, htick, by rw [hphase]; rfl⟩
  · rintro hquiet ⟨tick, htick, hphase⟩
    cases hcase : tick.phase with
    | answered frozen => exact hquiet tick frozen htick hcase
    | started | observing _ =>
      rw [hcase] at hphase
      cases hphase

variable {index : Option RepositoryIndex} {leases : List ResourceLease}

theorem storedPlan_declares {plan stored : AgentPlan}
    (h : storedPlan ground plan index = some stored) : Declares ground stored plan := by
  cases index with
  | none => exact .inl (Option.some.inj h).symm
  | some index =>
    exact .inr ⟨index, toOption_eq_some h⟩

omit [TextRuntime] in
theorem forall_mem_snoc {α : Type} {P : α → Prop} {xs : List α} {x : α} (h : ∀ y ∈ xs, P y)
    (hx : P x) : ∀ y ∈ xs ++ [x], P y := by
  intro y hy
  rcases List.mem_append.mp hy with hy | hy
  · exact h y hy
  · exact List.mem_singleton.mp hy ▸ hx

theorem kept_begin {revision : Revision} {index : RepositoryIndex} (hkept : Kept ground s)
    (horderly : ¬Answered s) (h : step ground s (.begin revision index) = some t) :
    Kept ground t := by
  cases hidle : s.deciding with
  | some deciding =>
    simp only [step, hidle] at h
    cases h
  | none =>
    have hagreed := hkept.idle hidle horderly
    simp only [step, hidle] at h
    split at h
    · obtain rfl := Option.some.inj h
      refine { hkept with idle := fun hnone => ?_, deciding := ?_ }
      · cases hnone
      · rintro deciding hdeciding
        obtain rfl := Option.some.inj hdeciding
        exact ⟨horderly, rfl, hagreed⟩
    · obtain rfl := Option.some.inj h
      refine { hkept with
        idle := fun _ _ => hagreed, deciding := ?_, rejected := ?_ }
      · rintro deciding hdeciding
        cases hdeciding
      · exact forall_mem_snoc hkept.rejected fun _ => rfl
    · cases h

theorem kept_admitted (hkept : Kept ground s) (h : step ground s (.admitted index) = some t) :
    Kept ground t := by
  obtain ⟨deciding, hdeciding, h⟩ := Option.bind_eq_some_iff.mp h
  rw [Option.ite_none_right_eq_some] at h
  obtain ⟨-, h⟩ := h
  obtain ⟨stored, hstored, h⟩ := Option.bind_eq_some_iff.mp h
  obtain rfl := Option.some.inj h
  obtain ⟨hfree, -⟩ := hkept.deciding deciding hdeciding
  refine { hkept with idle := fun hnone => ?_, deciding := ?_, answered := ?_ }
  · cases hnone
  · rintro next hnext
    obtain rfl := Option.some.inj hnext
    exact ⟨hfree, stored, rfl, storedPlan_declares hstored⟩
  · exact fun tick frozen htick hphase => absurd hphase (not_answered_iff.mp hfree _ _ htick)

theorem kept_refused (hkept : Kept ground s)
    (horderly : ∀ deciding ∈ s.deciding, deciding.phase = .asking)
    (h : step ground s .refused = some t) : Kept ground t := by
  obtain ⟨deciding, hdeciding, h⟩ := Option.bind_eq_some_iff.mp h
  obtain rfl := Option.some.inj h
  obtain ⟨-, hphase⟩ := hkept.deciding deciding hdeciding
  unfold PhaseKept at hphase
  rw [horderly deciding hdeciding] at hphase
  obtain ⟨hsame, hagreed⟩ := hphase
  refine { hkept with idle := fun _ _ => hagreed, deciding := ?_, rejected := ?_ }
  · rintro next hnext
    cases hnext
  · exact forall_mem_snoc hkept.rejected fun _ => hsame

theorem kept_granted (hkept : Kept ground s) (h : step ground s (.granted leases) = some t) :
    Kept ground t := by
  obtain ⟨deciding, hdeciding, h⟩ := Option.bind_eq_some_iff.mp h
  rw [Option.ite_none_right_eq_some] at h
  obtain ⟨hadmitted, h⟩ := h
  obtain rfl := Option.some.inj h
  obtain ⟨hfree, hphase⟩ := hkept.deciding deciding hdeciding
  unfold PhaseKept at hphase
  rw [hadmitted] at hphase
  obtain ⟨stored, hstored, hdeclares⟩ := hphase
  refine { hkept with idle := fun hnone => ?_, deciding := ?_, answered := ?_ }
  · cases hnone
  · rintro next hnext
    obtain rfl := Option.some.inj hnext
    refine ⟨hfree, fun plan hplan => ?_⟩
    obtain rfl := Option.some.inj (hstored.symm.trans hplan)
    exact hdeclares
  · exact fun tick frozen htick hphase => absurd hphase (not_answered_iff.mp hfree _ _ htick)

theorem kept_answered (hkept : Kept ground s) (h : step ground s .answered = some t) :
    Kept ground t := by
  obtain ⟨deciding, hdeciding, h⟩ := Option.bind_eq_some_iff.mp h
  rw [Option.ite_none_right_eq_some] at h
  obtain ⟨hinForce, h⟩ := h
  obtain rfl := Option.some.inj h
  obtain ⟨-, hphase⟩ := hkept.deciding deciding hdeciding
  unfold PhaseKept at hphase
  rw [hinForce] at hphase
  refine { hkept with idle := fun _ _ => hphase, deciding := ?_, rejected := ?_ }
  · rintro next hnext
    cases hnext
  · exact forall_mem_snoc hkept.rejected fun hgranted => by cases hgranted

theorem kept_tick {tick : Option Tick} (hkept : Kept ground s) (hfree : ¬Answered s)
    (hquiet : ∀ next frozen, tick = some next → next.phase ≠ .answered frozen) :
    Kept ground { s with tick } := by
  have hstill : ¬Answered { s with tick } := not_answered_iff.mpr hquiet
  refine { hkept with
    idle := fun hnone _ => hkept.idle hnone hfree, deciding := ?_, answered := ?_ }
  · exact fun deciding hdeciding => ⟨hstill, (hkept.deciding deciding hdeciding).2⟩
  · exact fun next frozen hnext hphase => absurd hphase (hquiet next frozen hnext)

theorem kept_tick_answered {tick : Tick} {frozen : AgentPlan} {terms : Terms}
    (hkept : Kept ground s) (hidle : s.deciding = none) (hphase : tick.phase = .answered frozen)
    (hcontract : terms.contract = some frozen)
    (hrevision : tick.planRevision = terms.task.planRevision) :
    Kept ground { s with toTerms := terms, tick := some tick } := by
  refine { hkept with idle := fun _ hfree => ?_, deciding := ?_, answered := ?_ }
  · exact absurd hphase (not_answered_iff.mp hfree _ _ rfl)
  · intro deciding hdeciding
    cases hidle.symm.trans hdeciding
  · rintro next plan hnext hplan
    obtain rfl := Option.some.inj hnext
    obtain rfl := TickPhase.answered.inj (hphase.symm.trans hplan)
    exact ⟨hcontract, hrevision⟩

theorem kept_tickStarted (hkept : Kept ground s) (h : step ground s .tickStarted = some t) :
    Kept ground t := by
  unfold step at h
  rw [Option.ite_none_right_eq_some] at h
  obtain ⟨⟨hnone, -⟩, h⟩ := h
  obtain rfl := Option.some.inj h
  refine kept_tick hkept ?_ ?_
  · rintro ⟨tick, htick, -⟩
    rw [show s.tick = some tick from htick] at hnone
    cases hnone
  · rintro next frozen hnext hphase
    obtain rfl := Option.some.inj hnext
    cases hphase

theorem kept_tickRead (hkept : Kept ground s) (horderly : Orderly s .tickRead)
    (h : step ground s .tickRead = some t) : Kept ground t := by
  obtain ⟨tick, htick, h⟩ := Option.bind_eq_some_iff.mp h
  rw [Option.ite_none_right_eq_some] at h
  obtain ⟨hstarted, h⟩ := h
  obtain rfl := Option.some.inj h
  have hfree : ¬Answered s := by
    refine not_answered_iff.mpr fun other frozen hother hphase => ?_
    obtain rfl := Option.some.inj (htick.symm.trans hother)
    cases hstarted.symm.trans hphase
  cases hread : readPhase s.contract tick.plan with
  | answered frozen =>
    obtain ⟨hidle, hrevision⟩ := horderly tick htick (by rw [hread]; rfl)
    have hcontract : s.contract = some frozen := by
      unfold readPhase at hread
      split at hread
      · cases hread
      · rename_i stored hstored
        split at hread
        · obtain rfl := TickPhase.answered.inj hread
          exact hstored
        · split at hread <;> cases hread
    exact kept_tick_answered hkept hidle rfl hcontract (hrevision tick htick)
  | started | observing _ =>
    refine kept_tick hkept hfree ?_
    rintro next frozen hnext hphase
    obtain rfl := Option.some.inj hnext
    cases hphase

theorem kept_tickStored {found : Narrowing} (hkept : Kept ground s) (horderly : Undisturbed s)
    (h : step ground s (.tickStored found) = some t) : Kept ground t := by
  obtain ⟨tick, htick, h⟩ := Option.bind_eq_some_iff.mp h
  obtain ⟨hidle, hrevision⟩ := horderly
  split at h
  · obtain ⟨narrowed, -, h⟩ := Option.bind_eq_some_iff.mp h
    obtain ⟨frozen, -, h⟩ := Option.bind_eq_some_iff.mp h
    obtain rfl := Option.some.inj h
    exact kept_tick_answered hkept hidle rfl rfl (hrevision tick htick)
  · cases h

theorem kept_tickRetried (hkept : Kept ground s) (h : step ground s .tickRetried = some t) :
    Kept ground t := by
  obtain ⟨tick, htick, h⟩ := Option.bind_eq_some_iff.mp h
  split at h
  · rename_i givenBack hobserving
    obtain rfl := Option.some.inj h
    refine kept_tick hkept (not_answered_iff.mpr ?_) ?_
    · intro other frozen hother hphase
      obtain rfl := Option.some.inj (htick.symm.trans hother)
      cases hobserving.symm.trans hphase
    · rintro next frozen hnext hphase
      obtain rfl := Option.some.inj hnext
      cases hphase
  · cases h

theorem kept_tickAdopted (hkept : Kept ground s) (h : step ground s (.tickAdopted leases) = some t) :
    Kept ground t := by
  obtain ⟨tick, htick, h⟩ := Option.bind_eq_some_iff.mp h
  split at h
  · rename_i frozen hanswered
    obtain rfl := Option.some.inj h
    obtain ⟨hcontract, hrevision⟩ := hkept.answered tick frozen htick hanswered
    refine { hkept with
      idle := fun _ _ => ?_, deciding := ?_, answered := ?_, adopted := ?_ }
    · intro stored hstored
      exact .inl (Option.some.inj (hstored.symm.trans hcontract))
    · exact fun deciding hdeciding => absurd hanswered
        (not_answered_iff.mp (hkept.deciding deciding hdeciding).1 tick frozen htick)
    · intro next plan hnext
      cases hnext
    · exact forall_mem_snoc hkept.adopted hrevision
  · cases h

/-- **An orderly step keeps the task to its contract.** -/
theorem kept_step {event : Event} (hkept : Kept ground s) (horderly : Orderly s event)
    (h : step ground s event = some t) : Kept ground t := by
  cases event with
  | begin revision index => exact kept_begin hkept horderly h
  | admitted index => exact kept_admitted hkept h
  | refused => exact kept_refused hkept horderly h
  | granted leases => exact kept_granted hkept h
  | answered => exact kept_answered hkept h
  | tickStarted => exact kept_tickStarted hkept h
  | tickRead => exact kept_tickRead hkept horderly h
  | tickStored found => exact kept_tickStored hkept horderly h
  | tickRetried => exact kept_tickRetried hkept h
  | tickStopped =>
    obtain ⟨tick, -, h⟩ := Option.bind_eq_some_iff.mp h
    obtain rfl := Option.some.inj h
    exact kept_tick hkept horderly fun next frozen hnext => by cases hnext
  | tickAdopted leases => exact kept_tickAdopted hkept h

/-- **A running task is held to the contract on its lease in every state an orderly run
reaches.** -/
theorem held_to_contract {terms : Terms} {events : List Event} (hagreed : Agreed ground terms)
    (horderly : Throughout (step ground) Orderly { toTerms := terms } events)
    (h : run (step ground) { toTerms := terms } events = some s) : HeldToContract ground s := by
  have hstart : Kept ground { toTerms := terms } := by
    refine ⟨fun _ _ => hagreed, ?_, ?_, ?_, ?_⟩
    · intro deciding hdeciding
      cases hdeciding
    · intro tick frozen htick
      cases htick
    · intro answer hanswer
      cases hanswer
    · intro adoption hadoption
      cases hadoption
  have hend : Kept ground s :=
    run_invariant (fun _ _ _ hkept horderly h => kept_step hkept horderly h) hstart horderly h
  refine ⟨fun hidle hnone => hend.idle hidle ?_, hend.rejected, hend.adopted⟩
  rintro ⟨tick, htick, -⟩
  cases hnone.symm.trans htick

end

end

/-! ## What a run does -/

/-- A task that is held to a plan, which is on its lease. -/
def heldTo (plan : AgentPlan) : State where
  contract := some plan
  task := { taskId := "task", agentId := "agent", plan, planRevision := 1 }
  ledger := []

def planOver (files : List String) : AgentPlan :=
  { taskId := "task", objective := "edit", expectedFiles := files, expectedSymbols := [] }

def wholeRepository : AgentPlan := { planOver [] with claim := some (.blanket none) }

def noIndex : RepositoryIndex := ⟨[], [], [], 0⟩

def oneMore (file : String) : ScopeChangeRequest :=
  { id := "s", taskId := "task", additionalFiles := [file], reason := "needed" }

def askFor (file : String) : Event := .begin (.asked (.scopeChange (oneMore file))) noIndex

def proposeFile (file : String) : Event :=
  .begin (.asked (.replan (planOver [file]) "simpler")) noIndex

/-- The holder has one edited file, and is not asked. -/
def edited (file : String) : Narrowing :=
  ⟨none, [], fun _ => true, [file], []⟩

def filesOnLease (terms : Terms) : Option (List String) :=
  terms.contract.map AgentPlan.expectedFiles

section
attribute [local instance] asciiRuntime

/-- A claim is narrowed to a file, a second file is granted, and a third refused. -/
theorem held_to_contract_narrowed :
    ∃ s, run (step fun _ _ => .ok none) (heldTo wholeRepository)
        [.tickStarted, .tickRead, .tickStored (edited "a.ts"), .tickAdopted [], askFor "b.ts",
          .admitted none, .granted [], .answered, askFor "c.ts", .refused] = some s ∧
      s.task.plan.expectedFiles = ["a.ts", "b.ts"] ∧
      HeldToContract (fun _ _ => .ok none) s := by
  have hfiles : (run (step fun _ _ => .ok none) (heldTo wholeRepository)
      [.tickStarted, .tickRead, .tickStored (edited "a.ts"), .tickAdopted [], askFor "b.ts",
        .admitted none, .granted [], .answered, askFor "c.ts", .refused]).map
          (fun s => s.task.plan.expectedFiles) = some ["a.ts", "b.ts"] := by
    decide
  obtain ⟨s, hs, hfiles⟩ := Option.map_eq_some_iff.mp hfiles
  refine ⟨s, hs, hfiles, held_to_contract ?_ (by decide) hs⟩
  intro stored hstored
  exact .inl (Option.some.inj hstored).symm

/-- **A request that is refused after it was admitted leaves its plan on the lease; and a
tick that started before a plan was granted puts the old one back.** -/
theorem contract_departed :
    (∃ s, run (step fun _ _ => .ok none) (heldTo (planOver ["a.ts"]))
        [askFor "b.ts", .admitted none, .refused] = some s ∧
      ¬HeldToContract (fun _ _ => .ok none) s) ∧
    ∃ s, run (step fun _ _ => .ok none) (heldTo wholeRepository)
        [.tickStarted, .tickRead, proposeFile "b.ts", .admitted none, .granted [], .answered,
          .tickStored (edited "a.ts"), .tickAdopted []] = some s ∧
      ¬HeldToContract (fun _ _ => .ok none) s := by
  constructor
  · have hanswers : (run (step fun _ _ => .ok none) (heldTo (planOver ["a.ts"]))
        [askFor "b.ts", .admitted none, .refused]).map (fun s => s.answers.map fun answer =>
          (answer.granted, filesOnLease answer.before, filesOnLease answer.after)) =
            some [(false, some ["a.ts"], some ["a.ts", "b.ts"])] := by
      decide
    obtain ⟨s, hs, hanswers⟩ := Option.map_eq_some_iff.mp hanswers
    refine ⟨s, hs, fun hheld => ?_⟩
    obtain ⟨answer, hanswers, hanswer⟩ := List.map_eq_singleton_iff.mp hanswers
    obtain ⟨hgranted, hfiles⟩ := Prod.mk.inj hanswer
    obtain ⟨hbefore, hafter⟩ := Prod.mk.inj hfiles
    have hsame := hheld.rejected answer (hanswers ▸ List.mem_singleton_self _) hgranted
    rw [hsame, hbefore] at hafter
    exact absurd hafter (by decide)
  · have hadoptions : (run (step fun _ _ => .ok none) (heldTo wholeRepository)
        [.tickStarted, .tickRead, proposeFile "b.ts", .admitted none, .granted [], .answered,
          .tickStored (edited "a.ts"), .tickAdopted []]).map State.adoptions = some [(1, 2)] := by
      decide
    obtain ⟨s, hs, hadoptions⟩ := Option.map_eq_some_iff.mp hadoptions
    refine ⟨s, hs, fun hheld => ?_⟩
    exact absurd (hheld.adopted (1, 2) (hadoptions ▸ List.mem_singleton_self _)) (by decide)

end

end AgenticGit.Coordinator.HeldContract
