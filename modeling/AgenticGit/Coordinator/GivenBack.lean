import AgenticGit.Coordinator.HeldContract

/- The files a holder has given back (`handleScopeRelease` of `coordinator.ts`,
   `narrowBlanketHolder` and `freezeBlanketClaim` of `lease-admission.ts`).

   A holder gives files back itself, and an arrival takes from it what it only guessed
   at. Its claim is narrowed by its own timer and by arrivals, each from a plan and a
   lease read some awaits before the narrowed plan is saved.

   What is proved:
     1. `claims_iff` — what a claim, of each kind, does not reach.
     2. `given_back_stays` — **what was given back stays given back**, in every run in
        which no step starts from a plan that still names it, nothing is given back that
        the claim beside the plan goes on reaching, and no claim is frozen to a file with
        a directory that something given back lies under.
     3. `given_back_returns` — without the first, and without the third, it does not.

   Correspondence (TypeScript ↔ Lean):
     `lease.plan.plan` of the holder's lease                   ↔ `State.stored`
     a plan somebody read, or the run has in force             ↔ one of `State.plans`
     `entry.blanketEstimate`                                   ↔ `State.estimate`
     `released` and `kept` of `narrowBlanketHolder`            ↔ `Arrival.released`,
       `Arrival.kept`
     its freeze of its own, and the one it asks the holder for ↔ `Event.narrowed`, without
       and with what was read
   `State.givenBack` is kept beside the program: what was given back and neither edited
   since nor granted again. -/
namespace AgenticGit.Coordinator.GivenBack
open AgenticGit.Runtime AgenticGit.Runs AgenticGit.Shared AgenticGit.CodeIntelligence
open AgenticGit.Coordinator.BlanketHolders (HolderDeclaration)
open AgenticGit.Coordinator.HeldContract (directoryOf freezePlanFromWorkingChanges Narrowing
  usableRepositoryPath declaredPlanFromClaim declareBlanketClaim freezeBlanketClaim storedPlan
  readPhase TickPhase)

/-! ## What a plan claims -/

def claimFiles (plan : AgentPlan) : List String :=
  match plan.claim with
  | some (.declared held) => held
  | _ => []

/-- The claim reaches the file, whatever the plan declares beside it. -/
def Reaches (plan : AgentPlan) (file : String) : Prop :=
  file ∈ claimFiles plan ∨ claimCoversPath plan file = .ok true

def Claims (plan : AgentPlan) (file : String) : Prop :=
  file ∈ plan.expectedFiles ∨ claimOccupiesPath plan file = .ok true ∨ Reaches plan file

instance (plan : AgentPlan) (file : String) : Decidable (Reaches plan file) :=
  inferInstanceAs (Decidable (_ ∨ _))

instance (plan : AgentPlan) (file : String) : Decidable (Claims plan file) :=
  inferInstanceAs (Decidable (_ ∨ _ ∨ _))

/-- The path is spelled the way normalization leaves it, if it accepts it. -/
def Normal (file : String) : Prop :=
  ∀ again, normalizeRepositoryPath file = .ok again → again = file

/-! ## Giving back -/

section
variable [TextRuntime]

/-- The files a release names that its plan can give back, as the plan spells them. -/
def filesGivenBack (plan : AgentPlan) (request : ScopeReleaseRequest) : List String :=
  (((scopeReleaseResources request).filterMap fun ref => (releasable plan ref).toOption.join).filter
    fun ref => ref.resourceType = .file).map PlanResourceRef.resourceId

end

/-- An arrival as it finds a repository-wide claim. -/
structure Arrival where
  /-- The holder's plan, as the arrival's decision read it. -/
  holder : AgentPlan
  /-- What the arriving plan wants. -/
  wanted : List String
  /-- The paths with changes in the holder's working tree. -/
  observed : List String
  deriving DecidableEq, Repr

/-- What the holder guessed at, is not in, and the arrival wants. -/
def Arrival.released (arrival : Arrival) : Except PathError (List String) := do
  let dirty ← arrival.observed.mapM normalizeRepositoryPath
  if arrival.observed.length = 0 then return []
  else return (← uniqueRepositoryPaths arrival.holder.expectedFiles).filter fun path =>
    path ∈ arrival.wanted ∧ path ∉ dirty

def Arrival.kept (arrival : Arrival) : Except PathError AgentPlan := do
  let released ← arrival.released
  if released.length = 0 then return arrival.holder
  else
    let expectedFiles ← arrival.holder.expectedFiles.filterM fun path => do
      return (← normalizeRepositoryPath path) ∉ released
    return { arrival.holder with expectedFiles }

/-! ## The steps -/

structure State where
  /-- The plan on the holder's lease. -/
  stored : AgentPlan
  /-- Every plan the holder has had, on its lease or in force. -/
  plans : List AgentPlan
  /-- What the objective said the task would touch. -/
  estimate : List String
  givenBack : List String := []
  deriving DecidableEq, Repr

inductive Event where
  /-- The holder gives files back, from the plan in force; the authority stores the plan
  without an index when nothing else executes. -/
  | released (plan : AgentPlan) (request : ScopeReleaseRequest) (working : Option (List String))
      (index : Option RepositoryIndex)
  /-- The timer narrows the claim: the plan in force, and the one the authority read. -/
  | froze (plan seen : AgentPlan) (found : Narrowing)
  /-- An arrival narrows the claim, by the freeze that asks the holder or by its own. -/
  | narrowed (arrival : Arrival) (asked : Option (AgentPlan × Narrowing))
  /-- A wider plan was decided against every other holder. -/
  | widened (submitted : AgentPlan) (index : Option RepositoryIndex)

def Edited (observed : List String) (file : String) : Prop :=
  ∃ change ∈ observed, normalizeRepositoryPath change = .ok file

instance (observed : List String) (file : String) : Decidable (Edited observed file) :=
  inferInstanceAs (Decidable (∃ change ∈ observed, _))

/-- The files that were seen with changes, normalized. -/
def seenFiles (observed : List String) : List String :=
  observed.filterMap fun change => (normalizeRepositoryPath change).toOption

def isDeclaredClaim (plan : AgentPlan) : Bool :=
  match plan.claim with
  | some (.declared _) => true
  | _ => false

/-- The holder named the file when it was asked what it needs. -/
def Said (declaration : Option HolderDeclaration) (file : String) : Prop :=
  ∃ said ∈ declaration, Edited said.files file

instance (declaration : Option HolderDeclaration) (file : String) :
    Decidable (Said declaration file) :=
  inferInstanceAs (Decidable (∃ said ∈ declaration, _))

/-- What a tick that read the lease leaves out of what it starts from. -/
def notedOn (seen plan : AgentPlan) : Option (List String) :=
  match readPhase (some seen) plan with
  | .observing givenBack => some givenBack
  | _ => none

/-- The plan a claim is narrowed to, by an authority that read it on the lease. -/
def freezeSeen (plan seen : AgentPlan) (found : Narrowing) : Option AgentPlan := do
  let noted ← notedOn seen plan
  (freezeBlanketClaim plan noted found).toOption.join

/-- A file is given back until it is edited, or granted again: a plan made from what the
holder said is decided against every other holder. -/
def State.narrow (s : State) (frozen : AgentPlan) (released observed : List String)
    (declaration : Option HolderDeclaration) : State :=
  { s with
    stored := frozen
    plans := s.plans ++ [frozen]
    givenBack := (s.givenBack ++ released).filter fun file =>
      ¬Edited observed file ∧ ¬(isDeclaredClaim frozen ∧ Said declaration file) }

def normalizedRequest (request : ScopeReleaseRequest) : Except PathError ScopeReleaseRequest := do
  return { request with releasedFiles := ← uniqueRepositoryPaths request.releasedFiles }

section
variable [TextRuntime] (ground : Grounding)

def step (s : State) : Event → Option State
  | .released plan request working index =>
    if plan ∈ s.plans then do
      let request ← (normalizedRequest request).toOption
      let revised ← releasedPlan plan request working
      let stored ← storedPlan ground revised index
      return { s with
        stored, plans := s.plans ++ [revised, stored]
        givenBack := s.givenBack ++ filesGivenBack plan request }
    else none
  | .froze plan seen found =>
    if plan ∈ s.plans ∧ seen ∈ s.plans ∧ isBlanketClaim plan then do
      let found := { found with estimatedFiles := s.estimate }
      let frozen ← freezeSeen plan seen found
      return s.narrow frozen [] found.observed found.declaration
    else none
  | .narrowed arrival asked =>
    if arrival.holder ∈ s.plans ∧ isBlanketClaim arrival.holder then do
      let released ← arrival.released.toOption
      let kept ← arrival.kept.toOption
      match asked with
      | some (seen, found) =>
        if seen ∈ s.plans then do
          let estimatedFiles ← (uniqueRepositoryPaths kept.expectedFiles).toOption
          let frozen ← freezeSeen kept seen { found with estimatedFiles }
          return s.narrow frozen released found.observed found.declaration
        else none
      | none =>
        let frozen ← (freezePlanFromWorkingChanges kept
          (kept.expectedFiles ++ arrival.observed)).toOption
        return s.narrow frozen released arrival.observed none
    else none
  | .widened submitted index => do
    let plan ← (assertAgentPlan submitted).toOption
    let stored ← storedPlan ground plan index
    return { s with
      stored, plans := s.plans ++ [plan, stored]
      givenBack := s.givenBack.filter fun file => ¬Claims stored file }

end

/-! ## When nothing comes back -/

def UpToDate (givenBack kept : List String) : Prop := ∀ file ∈ givenBack, file ∉ kept

/-- Nothing that was given back lies under the directory of a file that is kept. -/
def Apart (givenBack kept : List String) : Prop :=
  ∀ file ∈ givenBack, ∀ other ∈ kept,
    directoryOf other = "" ∨ startsWith file (directoryOf other) = false

instance (givenBack kept : List String) : Decidable (UpToDate givenBack kept) :=
  inferInstanceAs (Decidable (∀ file ∈ givenBack, _))

instance (givenBack kept : List String) : Decidable (Apart givenBack kept) :=
  inferInstanceAs (Decidable (∀ file ∈ givenBack, _))

def unedited (observed files : List String) : List String :=
  files.filter fun file => ¬Edited observed file

/-- What a narrowing goes on holding, of the plan it starts from. -/
def heldBack (noted files : List String) : Except PathError (List String) := do
  if noted = [] then return files
  else return (← uniqueRepositoryPaths files).filter (· ∉ noted)

def converted (plan : AgentPlan) (noted : List String) (found : Narrowing) : Bool :=
  match found.declaration, heldBack noted plan.expectedFiles with
  | some declaration, .ok expectedFiles =>
    (declareBlanketClaim { plan with expectedFiles } found declaration).toOption.join.isSome
  | _, _ => false

/-- The files a claim is frozen to: those of the plan it starts from and those seen with
changes, or the estimate where there are none. -/
def frozenFiles (plan : AgentPlan) (noted : List String) (found : Narrowing) : List String :=
  plan.expectedFiles.filter (· ∉ noted) ++
    if 0 < found.observed.length then seenFiles found.observed
    else found.estimatedFiles.filter (· ∉ noted)

/-- A freeze keeps nothing given back, nor a directory over it; a declared plan keeps
nothing given back that the holder did not say. -/
def CarefulFreeze (givenBack : List String) (plan : AgentPlan) (noted : List String)
    (found : Narrowing) : Prop :=
  if converted plan noted found then
    UpToDate ((unedited found.observed givenBack).filter fun file => ¬Said found.declaration file)
      (plan.expectedFiles.filter (· ∉ noted))
  else
    UpToDate (unedited found.observed givenBack) (frozenFiles plan noted found) ∧
      Apart (unedited found.observed givenBack) (frozenFiles plan noted found)

instance (givenBack : List String) (plan : AgentPlan) (noted : List String) (found : Narrowing) :
    Decidable (CarefulFreeze givenBack plan noted found) :=
  inferInstanceAs (Decidable (if converted plan noted found then UpToDate _ _ else _ ∧ _))

section
variable [TextRuntime]

/-- No step starts from a plan that still names what was given back, nothing is given
back that a claim that is no longer repository-wide reaches, and no claim is frozen with
a directory over what was given back. -/
def Careful (s : State) : Event → Prop
  | .released plan request _ _ =>
    (∀ file ∈ s.givenBack, ¬Claims plan file) ∧
      ∀ asked ∈ (normalizedRequest request).toOption, ∀ file ∈ filesGivenBack plan asked,
        isBlanketClaim plan = false → ¬Reaches plan file
  | .froze plan seen found =>
    ∀ noted ∈ notedOn seen plan,
      CarefulFreeze s.givenBack plan noted { found with estimatedFiles := s.estimate }
  | .narrowed arrival asked =>
    ∀ released ∈ arrival.released.toOption, ∀ kept ∈ arrival.kept.toOption,
      match asked with
      | some (seen, found) =>
        ∀ estimatedFiles ∈ (uniqueRepositoryPaths kept.expectedFiles).toOption,
          ∀ noted ∈ notedOn seen kept,
            CarefulFreeze (s.givenBack ++ released) kept noted { found with estimatedFiles }
      | none =>
        let left := unedited arrival.observed (s.givenBack ++ released)
        let files := kept.expectedFiles ++ seenFiles arrival.observed
        UpToDate left files ∧ Apart left files
  | .widened _ _ => True

instance (s : State) : DecidablePred (Careful s)
  | .released plan request _ _ =>
    inferInstanceAs (Decidable ((∀ file ∈ s.givenBack, ¬Claims plan file) ∧
      ∀ asked ∈ (normalizedRequest request).toOption, ∀ file ∈ filesGivenBack plan asked,
        isBlanketClaim plan = false → ¬Reaches plan file))
  | .froze plan seen _ =>
    inferInstanceAs (Decidable (∀ noted ∈ notedOn seen plan, CarefulFreeze _ plan noted _))
  | .narrowed arrival (some (seen, found)) =>
    inferInstanceAs (Decidable (∀ released ∈ arrival.released.toOption,
      ∀ kept ∈ arrival.kept.toOption,
        ∀ estimatedFiles ∈ (uniqueRepositoryPaths kept.expectedFiles).toOption,
          ∀ noted ∈ notedOn seen kept,
            CarefulFreeze (s.givenBack ++ released) kept noted { found with estimatedFiles }))
  | .narrowed arrival none =>
    inferInstanceAs (Decidable (∀ released ∈ arrival.released.toOption,
      ∀ kept ∈ arrival.kept.toOption, UpToDate _ _ ∧ Apart _ _))
  | .widened _ _ => isTrue trivial

end

/-! ## What a claim does not reach -/

/-- The file is outside a plan: not declared, and given back, under no directory or not
held, as the claim has it. -/
structure Outside (plan : AgentPlan) (file : String) : Prop where
  undeclared : file ∉ plan.expectedFiles
  returned : ∀ released, plan.claim = some (.blanket released) → file ∈ released.getD []
  unreached : isBlanketClaim plan = false → ¬Reaches plan file

theorem not_blanket_of_claim {plan : AgentPlan}
    (h : ∀ released, plan.claim ≠ some (.blanket released)) : isBlanketClaim plan = false := by
  unfold isBlanketClaim
  split
  · rename_i released hclaim
    exact (h released hclaim).elim
  · rfl

variable {values paths : List String}

theorem normal_of_mem_unique (h : uniqueRepositoryPaths values = .ok paths) :
    ∀ path ∈ paths, Normal path :=
  (uniqueRepositoryPaths_canonical h).normal

theorem mem_of_mem_unique (h : uniqueRepositoryPaths values = .ok paths)
    (hnormal : ∀ value ∈ values, Normal value) {path : String} (hpath : path ∈ paths) :
    path ∈ values := by
  obtain ⟨value, hvalue, hn⟩ := (mem_uniqueRepositoryPaths h).mp hpath
  rw [hnormal value hvalue path hn]
  exact hvalue

theorem mem_unique_of_mem (h : uniqueRepositoryPaths values = .ok paths) {path : String}
    (hnormal : Normal path) (hpath : path ∈ values) : path ∈ paths := by
  have hall := h
  unfold uniqueRepositoryPaths at hall
  obtain ⟨normalized, hmap, -⟩ := except_bind_ok hall
  obtain ⟨again, -, hn⟩ := forall₂_mem (mapM_ok hmap) hpath
  rw [hnormal again hn] at hn
  exact (mem_uniqueRepositoryPaths h).mpr ⟨path, hpath, hn⟩

/-- **Whom a claim of each kind leaves a file to.** -/
theorem claims_iff {plan : AgentPlan} (hplan : ∀ value ∈ plan.expectedFiles, Normal value)
    {file : String} (hfile : Normal file) : ¬Claims plan file ↔ Outside plan file := by
  unfold Claims
  rw [not_or, not_or]
  constructor
  · intro ⟨hdeclared, hoccupied, hreached⟩
    refine ⟨hdeclared, fun released hclaim => ?_, fun _ => hreached⟩
    have hcovers : claimCoversPath plan file ≠ .ok true := fun h => hreached (.inr h)
    simp only [claimCoversPath, hclaim, ne_eq, Except.ok.injEq, decide_eq_true_eq,
      not_not] at hcovers
    exact hcovers
  · intro hout
    refine ⟨hout.undeclared, fun hoccupied => ?_, fun hreached => ?_⟩
    · cases hclaim : plan.claim with
      | none =>
        simp only [claimOccupiesPath, hclaim] at hoccupied
        cases hoccupied
      | some claim =>
        cases claim with
        | blanket released =>
          simp only [claimOccupiesPath, hclaim] at hoccupied
          obtain ⟨paths, hpaths, hok⟩ := except_bind_ok hoccupied
          have hmem := mem_unique_of_mem hpaths hfile (hout.returned released hclaim)
          simp only [pure, Except.pure, Except.ok.injEq, decide_eq_true_eq] at hok
          exact hok hmem
        | declared held =>
          refine hout.unreached (not_blanket_of_claim fun released h => ?_) (.inr ?_)
          · rw [hclaim] at h
            cases h
          · simpa only [claimOccupiesPath, claimCoversPath, hclaim] using hoccupied
        | frozen directories =>
          simp only [claimOccupiesPath, hclaim] at hoccupied
          obtain ⟨paths, hpaths, hok⟩ := except_bind_ok hoccupied
          simp only [pure, Except.pure, Except.ok.injEq, decide_eq_true_eq] at hok
          exact hout.undeclared (mem_of_mem_unique hpaths hplan hok)
    · cases hblanket : isBlanketClaim plan with
      | false => exact hout.unreached hblanket hreached
      | true =>
        unfold isBlanketClaim at hblanket
        split at hblanket
        · rename_i released hclaim
          rcases hreached with hreached | hreached
          · simp only [claimFiles, hclaim, List.not_mem_nil] at hreached
          · simp only [claimCoversPath, hclaim, Except.ok.injEq, decide_eq_true_eq] at hreached
            exact hreached (hout.returned released hclaim)
        · cases hblanket

/-! ## Storing and releasing -/

section
variable [TextRuntime] {ground : Grounding}

theorem verifyPlan_ok {plan verified : AgentPlan} {index : RepositoryIndex}
    (h : verifyPlan ground plan index = .ok verified) :
    uniqueRepositoryPaths plan.expectedFiles = .ok verified.expectedFiles ∧
      verified.claim = plan.claim := by
  unfold verifyPlan groundPlan enrichPlan at h
  obtain ⟨grounded, hgrounded, h⟩ := except_bind_ok h
  obtain ⟨grounding, -, hgrounded⟩ := except_bind_ok hgrounded
  obtain ⟨files, hfiles, h⟩ := except_bind_ok h
  obtain rfl := Except.ok.inj h
  obtain rfl := Except.ok.inj hgrounded
  exact ⟨hfiles, rfl⟩

theorem storedPlan_some {plan stored : AgentPlan} {index : Option RepositoryIndex}
    (h : storedPlan ground plan index = some stored)
    (hplan : ∀ value ∈ plan.expectedFiles, Normal value) :
    (∀ file ∈ stored.expectedFiles, file ∈ plan.expectedFiles ∧ Normal file) ∧
      stored.claim = plan.claim := by
  cases index with
  | none =>
    obtain rfl := Option.some.inj h
    exact ⟨fun file hfile => ⟨hfile, hplan file hfile⟩, rfl⟩
  | some index =>
    obtain ⟨hfiles, hclaim⟩ := verifyPlan_ok (toOption_eq_some h)
    exact ⟨fun file hfile => ⟨mem_of_mem_unique hfiles hplan hfile,
      normal_of_mem_unique hfiles file hfile⟩, hclaim⟩

omit [TextRuntime] in
theorem reduceOption_mapM {α β ε : Type} {f : α → Except ε (Option β)} {xs : List α}
    {found : List (Option β)} (h : xs.mapM f = .ok found) :
    found.reduceOption = xs.filterMap fun x => (f x).toOption.join := by
  have hall := mapM_ok h
  clear h
  induction hall with
  | nil => rfl
  | cons hx _ ih =>
    rename_i x y xs ys _
    rw [List.filterMap_cons, hx]
    cases y with
    | none => exact ih
    | some y => exact congrArg (y :: ·) ih

variable {request : ScopeReleaseRequest}

theorem releasedPlan_some {plan revised : AgentPlan} {working : Option (List String)}
    (h : releasedPlan plan request working = some revised) :
    ∃ resources reduced, reducePlanScope plan resources = .ok reduced ∧
      filesGivenBack plan request =
        (resources.filter fun ref => ref.resourceType = .file).map PlanResourceRef.resourceId ∧
      revised = releaseFromBlanketClaim reduced (unique (filesGivenBack plan request)) := by
  unfold releasedPlan at h
  dsimp only at h
  rw [Option.ite_none_left_eq_some] at h
  obtain ⟨-, h⟩ := h
  obtain ⟨found, hfound, h⟩ := Option.bind_eq_some_iff.mp h
  rw [Option.ite_none_left_eq_some] at h
  obtain ⟨-, h⟩ := h
  rw [Option.ite_none_left_eq_some] at h
  obtain ⟨-, h⟩ := h
  obtain ⟨reduced, hreduced, h⟩ := Option.bind_eq_some_iff.mp h
  have hresources := reduceOption_mapM (toOption_eq_some hfound)
  refine ⟨found.reduceOption, reduced, toOption_eq_some hreduced, ?_, ?_⟩
  · rw [hresources]
    rfl
  · rw [← Option.some.inj h, hresources]
    rfl

theorem mem_filesGivenBack {plan : AgentPlan} {file : String}
    (h : file ∈ filesGivenBack plan request) :
    file ∈ plan.expectedFiles ∨ file ∈ request.releasedFiles := by
  have hfiles {files symbols apis schemas keys tests services : List String}
      {own : PlanResourceRef} (htype : own.resourceType = .file)
      (hown : own ∈ refsOf .file files ++ refsOf .symbol symbols ++ refsOf .api apis ++
        refsOf .schema schemas ++ refsOf .configuration keys ++ refsOf .test tests ++
        refsOf .service services) : own.resourceId ∈ files := by
    simp only [refsOf, List.mem_append, List.mem_map] at hown
    rcases hown with (((((hown | hown) | hown) | hown) | hown) | hown) | hown <;>
      obtain ⟨id, hid, rfl⟩ := hown <;> first | exact hid | cases htype
  obtain ⟨own, hown, rfl⟩ := List.mem_map.mp h
  obtain ⟨hown, htype⟩ := List.mem_filter.mp hown
  have htype := of_decide_eq_true htype
  obtain ⟨ref, hasked, hfound⟩ := List.mem_filterMap.mp hown
  have hfound := toOption_eq_some (Option.join_eq_some_iff.mp hfound)
  unfold releasable at hfound
  split at hfound
  · rename_i claimed hclaimed
    obtain rfl := Option.some.inj (Except.ok.inj hfound)
    have hmem := List.mem_of_find?_eq_some hclaimed
    rw [List.mem_reverse] at hmem
    exact .inl (hfiles htype hmem)
  · split at hfound
    · obtain ⟨covered, -, hfound⟩ := except_bind_ok hfound
      have hfound := Except.ok.inj hfound
      split at hfound
      · obtain rfl := Option.some.inj hfound
        exact .inr (hfiles htype hasked)
      · cases hfound
    · cases hfound

omit [TextRuntime] in
theorem releaseFromBlanketClaim_files {plan : AgentPlan} {files : List String} :
    (releaseFromBlanketClaim plan files).expectedFiles = plan.expectedFiles := by
  unfold releaseFromBlanketClaim
  split
  · split <;> rfl
  · rfl

omit [TextRuntime] in
theorem releaseFromBlanketClaim_claim (plan : AgentPlan) (files : List String) :
    (isBlanketClaim plan = false ∧ releaseFromBlanketClaim plan files = plan) ∨
      ∃ released released', plan.claim = some (.blanket released) ∧
        (releaseFromBlanketClaim plan files).claim = some (.blanket released') ∧
        ∀ file, file ∈ released'.getD [] ↔ file ∈ released.getD [] ∨ file ∈ files := by
  unfold releaseFromBlanketClaim
  split
  · rename_i released hclaim
    refine .inr ⟨released, ?_⟩
    split
    · rename_i hfiles
      rw [List.length_eq_zero_iff] at hfiles
      refine ⟨released, hclaim, hclaim, fun file => ?_⟩
      simp [hfiles]
    · refine ⟨_, hclaim, rfl, fun file => ?_⟩
      simp [mem_sortStrings, mem_unique]
  · rename_i hclaim
    exact .inl ⟨not_blanket_of_claim hclaim, rfl⟩

theorem reducePlanScope_ok {plan reduced : AgentPlan} {removed : List PlanResourceRef}
    (h : reducePlanScope plan removed = .ok reduced)
    (hplan : ∀ value ∈ plan.expectedFiles, Normal value) :
    (∀ file ∈ reduced.expectedFiles,
      file ∈ plan.expectedFiles ∧ Normal file ∧ ⟨.file, file⟩ ∉ removed) ∧
      reduced.claim = plan.claim := by
  obtain ⟨-, files, hfiles, rfl⟩ := assertAgentPlan_ok h
  refine ⟨fun file hfile => ?_, rfl⟩
  have hkept := mem_of_mem_unique hfiles
    (fun value hvalue => hplan value (List.mem_of_mem_filter hvalue)) hfile
  obtain ⟨hmem, hkeep⟩ := List.mem_filter.mp hkept
  refine ⟨hmem, hplan file hmem, fun hremoved => ?_⟩
  unfold keep at hkeep
  exact of_decide_eq_true hkeep (List.mem_map_of_mem hremoved)

end

/-! ## Narrowing -/

variable {observed : List String} {plan frozen : AgentPlan} {found : Narrowing}

theorem mem_seenFiles {file : String} : file ∈ seenFiles observed ↔ Edited observed file := by
  unfold seenFiles Edited
  simp only [List.mem_filterMap]
  refine exists_congr fun change => and_congr_right fun _ => ?_
  constructor
  · exact toOption_eq_some
  · intro h
    rw [h]
    rfl

theorem mem_mapM_normalize {changes changed : List String}
    (h : changes.mapM normalizeRepositoryPath = .ok changed) {file : String} :
    file ∈ changed ↔ Edited changes file := by
  have hall := mapM_ok h
  constructor
  · intro hfile
    obtain ⟨change, hchange, hn⟩ := forall₂_mem hall.flip hfile
    exact ⟨change, hchange, hn⟩
  · intro ⟨change, hchange, hn⟩
    obtain ⟨file', hfile, hn'⟩ := forall₂_mem hall hchange
    rw [hn] at hn'
    exact Except.ok.inj hn' ▸ hfile

/-- A claim is frozen to the files of its plan and those seen, and to the directories
they are in. -/
theorem freezePlan_ok {changes : List String}
    (h : freezePlanFromWorkingChanges plan changes = .ok frozen) :
    (∀ file, file ∈ frozen.expectedFiles ↔ file ∈ plan.expectedFiles ∨ Edited changes file) ∧
      ∃ directories, frozen.claim = some (.frozen directories) ∧
        ∀ directory ∈ directories, directory ≠ "" ∧
          ∃ file ∈ frozen.expectedFiles, directoryOf file = directory := by
  unfold freezePlanFromWorkingChanges at h
  obtain ⟨changed, hchanged, h⟩ := except_bind_ok h
  obtain rfl := Except.ok.inj h
  refine ⟨fun file => ?_, _, rfl, fun directory hdirectory => ?_⟩
  · simp only [mem_sortStrings, mem_unique, List.mem_append, mem_mapM_normalize hchanged]
  · simp only [mem_sortStrings, mem_unique, List.mem_filter, List.mem_map,
      decide_eq_true_eq] at hdirectory
    obtain ⟨⟨file, hfile, hdirectory⟩, hne⟩ := hdirectory
    refine ⟨hne, file, ?_, hdirectory⟩
    simpa only [mem_sortStrings, mem_unique] using hfile

theorem outside_frozen {changes kept givenBack : List String}
    (h : freezePlanFromWorkingChanges plan changes = .ok frozen)
    (hkept : ∀ file ∈ frozen.expectedFiles, file ∈ kept) (hcurrent : UpToDate givenBack kept)
    (hapart : Apart givenBack kept) {file : String} (hfile : file ∈ givenBack) :
    Outside frozen file := by
  obtain ⟨-, directories, hclaim, hdirectories⟩ := freezePlan_ok h
  refine ⟨fun hmem => hcurrent file hfile (hkept file hmem), fun released hblanket => ?_,
    fun _ hreached => ?_⟩
  · rw [hclaim] at hblanket
    cases hblanket
  · rcases hreached with hreached | hreached
    · simp only [claimFiles, hclaim, List.not_mem_nil] at hreached
    · simp only [claimCoversPath, hclaim, Except.ok.injEq, List.any_eq_true] at hreached
      obtain ⟨directory, hdirectory, hunder⟩ := hreached
      obtain ⟨hne, other, hother, rfl⟩ := hdirectories directory hdirectory
      rcases hapart file hfile other (hkept other hother) with hroot | hnot
      · exact hne hroot
      · rw [hunder] at hnot
        cases hnot

theorem heldBack_ok {noted files held : List String} (h : heldBack noted files = .ok held)
    (hfiles : ∀ value ∈ files, Normal value) :
    ∀ file ∈ held, file ∈ files.filter (· ∉ noted) ∧ Normal file := by
  intro file hfile
  unfold heldBack at h
  split at h
  · rename_i hnoted
    obtain rfl := Except.ok.inj h
    exact ⟨by simpa [hnoted] using hfile, hfiles file hfile⟩
  · obtain ⟨paths, hpaths, h⟩ := except_bind_ok h
    obtain rfl := Except.ok.inj h
    obtain ⟨hpath, hnoted⟩ := List.mem_filter.mp hfile
    exact ⟨List.mem_filter.mpr ⟨mem_of_mem_unique hpaths hfiles hpath, hnoted⟩,
      normal_of_mem_unique hpaths file hpath⟩

/-- A declared plan names what was said, what was seen and what the plan declares, and
holds what was seen. -/
theorem declaredPlan_ok {plan declared : AgentPlan} {declaration : HolderDeclaration}
    (h : declaredPlanFromClaim plan declaration observed = .ok (some declared)) :
    (∀ file ∈ declared.expectedFiles, Normal file ∧
      (Edited declaration.files file ∨ Edited observed file ∨
        ∃ value ∈ plan.expectedFiles, normalizeRepositoryPath value = .ok file)) ∧
      ∃ held, declared.claim = some (.declared held) ∧
        ∀ file ∈ held, Normal file ∧ Edited observed file := by
  unfold declaredPlanFromClaim at h
  split at h
  · cases h
  · obtain ⟨said, hsaid, h⟩ := except_bind_ok h
    dsimp only at h
    split at h
    · cases h
    · obtain ⟨touched, htouched, h⟩ := except_bind_ok h
      obtain ⟨files, hfiles, h⟩ := except_bind_ok h
      obtain rfl := Option.some.inj (Except.ok.inj h)
      have hseen {values paths : List String} {file : String}
          (hpaths : uniqueRepositoryPaths (values.filter usableRepositoryPath) = .ok paths)
          (hfile : file ∈ paths) : Edited values file := by
        obtain ⟨value, hvalue, hn⟩ := (mem_uniqueRepositoryPaths hpaths).mp hfile
        exact ⟨value, List.mem_of_mem_filter hvalue, hn⟩
      refine ⟨fun file hfile => ⟨normal_of_mem_unique hfiles file hfile, ?_⟩, _, rfl, ?_⟩
      · obtain ⟨value, hvalue, hn⟩ := (mem_uniqueRepositoryPaths hfiles).mp hfile
        rw [List.mem_append, List.mem_append] at hvalue
        rcases hvalue with (hvalue | hvalue) | hvalue
        · rw [normal_of_mem_unique hsaid value hvalue file hn]
          exact .inl (hseen hsaid hvalue)
        · rw [normal_of_mem_unique htouched value hvalue file hn]
          exact .inr (.inl (hseen htouched hvalue))
        · exact .inr (.inr ⟨value, hvalue, hn⟩)
      · intro file hfile
        have hfile := List.mem_of_mem_filter hfile
        exact ⟨normal_of_mem_unique htouched file hfile, hseen htouched hfile⟩

theorem filterAuxM_ok {α ε : Type} {p : α → Except ε Bool} {xs acc ys : List α}
    (h : xs.filterAuxM p acc = .ok ys) {y : α} (hy : y ∈ ys) :
    y ∈ acc ∨ (y ∈ xs ∧ p y = .ok true) := by
  induction xs generalizing acc with
  | nil =>
    obtain rfl := Except.ok.inj h
    exact .inl hy
  | cons x xs ih =>
    obtain ⟨kept, hkept, h⟩ := except_bind_ok h
    cases kept with
    | false =>
      exact (ih h).imp_right fun ⟨hmem, hp⟩ => ⟨List.mem_cons_of_mem _ hmem, hp⟩
    | true =>
      rcases ih h with hacc | ⟨hmem, hp⟩
      · rcases List.mem_cons.mp hacc with rfl | hacc
        · exact .inr ⟨List.mem_cons_self, hkept⟩
        · exact .inl hacc
      · exact .inr ⟨List.mem_cons_of_mem _ hmem, hp⟩

theorem filterM_ok {α ε : Type} {p : α → Except ε Bool} {xs ys : List α}
    (h : xs.filterM p = .ok ys) : ∀ y ∈ ys, y ∈ xs ∧ p y = .ok true := by
  intro y hy
  obtain ⟨kept, hkept, h⟩ := except_bind_ok h
  obtain rfl := Except.ok.inj h
  rcases filterAuxM_ok hkept (List.mem_reverse.mp hy) with hnil | hmem
  · cases hnil
  · exact hmem

theorem declareBlanket_ok {plan declared : AgentPlan} {declaration : HolderDeclaration}
    (h : declareBlanketClaim plan found declaration = .ok (some declared)) :
    ∃ kept, (∀ file ∈ kept, file ∈ declaration.files) ∧
      declaredPlanFromClaim plan ⟨kept, declaration.symbols⟩ found.observed =
        .ok (some declared) := by
  unfold declareBlanketClaim at h
  obtain ⟨touched, -, h⟩ := except_bind_ok h
  obtain ⟨taken, -, h⟩ := except_bind_ok h
  split at h
  · cases h
  · obtain ⟨kept, hkept, h⟩ := except_bind_ok h
    obtain ⟨converted, hconverted, h⟩ := except_bind_ok h
    split at h
    · cases h
    · rename_i plan'
      split at h
      · obtain rfl := Option.some.inj (Except.ok.inj h)
        refine ⟨kept, fun file hfile => ?_, hconverted⟩
        exact List.mem_of_mem_filter (filterM_ok hkept file hfile).1
      · cases h

theorem freezeBlanket_ok {noted : List String}
    (h : freezeBlanketClaim plan noted found = .ok (some frozen)) :
    ∃ files estimated, heldBack noted plan.expectedFiles = .ok files ∧
      heldBack noted found.estimatedFiles = .ok estimated ∧
      ((converted plan noted found = true ∧ ∃ declaration, found.declaration = some declaration ∧
          declareBlanketClaim { plan with expectedFiles := files } found declaration =
            .ok (some frozen)) ∨
        (converted plan noted found = false ∧
          freezePlanFromWorkingChanges { plan with expectedFiles := files }
            (if 0 < found.observed.length then found.observed else estimated) = .ok frozen)) := by
  obtain ⟨files, hfiles, h⟩ := except_bind_ok h
  obtain ⟨estimated, hestimated, h⟩ := except_bind_ok h
  have hfiles : heldBack noted plan.expectedFiles = .ok files := hfiles
  refine ⟨files, estimated, hfiles, hestimated, ?_⟩
  have hplain {narrowTo : List String}
      (h : (if narrowTo.length = 0 then pure none else do
        return some (← freezePlanFromWorkingChanges { plan with expectedFiles := files }
          narrowTo) : Except PathError (Option AgentPlan)) = .ok (some frozen)) :
      freezePlanFromWorkingChanges { plan with expectedFiles := files } narrowTo = .ok frozen := by
    split at h
    · cases h
    · obtain ⟨kept, hkept, h⟩ := except_bind_ok h
      obtain rfl := Option.some.inj (Except.ok.inj h)
      exact hkept
  unfold converted
  cases hsaid : found.declaration with
  | none =>
    simp only [hsaid] at h
    exact .inr ⟨rfl, hplain h⟩
  | some declaration =>
    simp only [hsaid] at h
    obtain ⟨declared, hdeclared, h⟩ := except_bind_ok h
    cases declared with
    | some converted =>
      obtain rfl := Option.some.inj (Except.ok.inj h)
      simp only [hfiles, hdeclared]
      exact .inl ⟨rfl, declaration, rfl, hdeclared⟩
    | none =>
      simp only [hfiles, hdeclared]
      exact .inr ⟨rfl, hplain h⟩

theorem Edited.normal {file : String} (h : Edited observed file) : Normal file := by
  obtain ⟨change, -, hn⟩ := h
  exact fun again => normalizeRepositoryPath_idem hn

section
variable {plan frozen : AgentPlan} {noted : List String} {found : Narrowing}

theorem freezeBlanket_normal (h : freezeBlanketClaim plan noted found = .ok (some frozen))
    (hplan : ∀ value ∈ plan.expectedFiles, Normal value) :
    ∀ value ∈ frozen.expectedFiles, Normal value := by
  intro value hvalue
  obtain ⟨files, estimated, hfiles, -, hmade⟩ := freezeBlanket_ok h
  rcases hmade with ⟨-, declaration, -, hdeclared⟩ | ⟨-, hfrozen⟩
  · obtain ⟨kept, -, hdeclared⟩ := declareBlanket_ok hdeclared
    exact ((declaredPlan_ok hdeclared).1 value hvalue).1
  · rcases ((freezePlan_ok hfrozen).1 value).mp hvalue with hvalue | hvalue
    · exact (heldBack_ok hfiles hplan value hvalue).2
    · exact hvalue.normal

/-- **A careful narrowing leaves outside the claim what was given back before it**, but
what was edited and what the holder asked for again. -/
theorem freezeBlanket_outside (h : freezeBlanketClaim plan noted found = .ok (some frozen))
    (hplan : ∀ value ∈ plan.expectedFiles, Normal value)
    (hestimate : ∀ value ∈ found.estimatedFiles, Normal value) {givenBack : List String}
    (hcareful : CarefulFreeze givenBack plan noted found) {file : String}
    (hfile : file ∈ givenBack) (hedited : ¬Edited found.observed file)
    (hsaid : ¬(isDeclaredClaim frozen ∧ Said found.declaration file)) : Outside frozen file := by
  have hleft : file ∈ unedited found.observed givenBack :=
    List.mem_filter.mpr ⟨hfile, decide_eq_true hedited⟩
  obtain ⟨files, estimated, hfiles, hestimated, hmade⟩ := freezeBlanket_ok h
  unfold CarefulFreeze at hcareful
  rcases hmade with ⟨hconverted, declaration, hsome, hdeclared⟩ | ⟨hconverted, hfrozen⟩
  · obtain ⟨kept, hkept, hdeclared⟩ := declareBlanket_ok hdeclared
    obtain ⟨hexpected, held, hclaim, hheld⟩ := declaredPlan_ok hdeclared
    have hunsaid : ¬Said found.declaration file := by
      refine fun hwas => hsaid ⟨?_, hwas⟩
      simp only [isDeclaredClaim, hclaim]
    rw [hconverted, if_pos rfl] at hcareful
    have hcurrent := hcareful file (List.mem_filter.mpr ⟨hleft, decide_eq_true hunsaid⟩)
    refine ⟨fun hmem => ?_, fun released hblanket => ?_, fun _ hreached => ?_⟩
    · rcases (hexpected file hmem).2 with ⟨said, hmem, hn⟩ | hseen | ⟨value, hvalue, hn⟩
      · exact hunsaid ⟨declaration, hsome, said, hkept said hmem, hn⟩
      · exact hedited hseen
      · obtain ⟨hvalue, hnormal⟩ := heldBack_ok hfiles hplan value hvalue
        rw [← hnormal file hn] at hvalue
        exact hcurrent hvalue
    · rw [hclaim] at hblanket
      cases hblanket
    · rcases hreached with hreached | hreached
      · simp only [claimFiles, hclaim] at hreached
        exact hedited (hheld file hreached).2
      · simp only [claimCoversPath, hclaim] at hreached
        obtain ⟨paths, hpaths, hok⟩ := except_bind_ok hreached
        have hmem := mem_of_mem_unique hpaths (fun value hvalue => (hheld value hvalue).1)
          (of_decide_eq_true (Except.ok.inj hok))
        exact hedited (hheld file hmem).2
  · rw [hconverted, if_neg Bool.false_ne_true] at hcareful
    refine outside_frozen hfrozen (fun value hvalue => ?_) hcareful.1 hcareful.2 hleft
    unfold frozenFiles
    rcases ((freezePlan_ok hfrozen).1 value).mp hvalue with hvalue | hvalue
    · exact List.mem_append_left _ (heldBack_ok hfiles hplan value hvalue).1
    · refine List.mem_append_right _ ?_
      split at hvalue
      · rw [if_pos ‹_›]
        exact mem_seenFiles.mpr hvalue
      · rw [if_neg ‹_›]
        obtain ⟨guess, hguess, hn⟩ := hvalue
        obtain ⟨hmem, hnormal⟩ := heldBack_ok hestimated hestimate guess hguess
        rw [hnormal value hn]
        exact hmem

end

theorem released_normal {arrival : Arrival} {released : List String}
    (h : arrival.released = .ok released) : ∀ file ∈ released, Normal file := by
  intro file hfile
  obtain ⟨dirty, -, h⟩ := except_bind_ok h
  split at h
  · obtain rfl := Except.ok.inj h
    cases hfile
  · obtain ⟨paths, hpaths, h⟩ := except_bind_ok h
    obtain rfl := Except.ok.inj h
    exact normal_of_mem_unique hpaths file (List.mem_of_mem_filter hfile)

theorem kept_files {arrival : Arrival} {kept : AgentPlan} (h : arrival.kept = .ok kept) :
    ∀ file ∈ kept.expectedFiles, file ∈ arrival.holder.expectedFiles := by
  intro file hfile
  obtain ⟨released, -, h⟩ := except_bind_ok h
  split at h
  · obtain rfl := Except.ok.inj h
    exact hfile
  · obtain ⟨files, hfiles, h⟩ := except_bind_ok h
    obtain rfl := Except.ok.inj h
    exact (filterM_ok hfiles file hfile).1

theorem frozen_kept {kept frozen : AgentPlan} {observed : List String}
    (h : freezePlanFromWorkingChanges kept (kept.expectedFiles ++ observed) = .ok frozen)
    (hkept : ∀ value ∈ kept.expectedFiles, Normal value) :
    ∀ file ∈ frozen.expectedFiles, file ∈ kept.expectedFiles ++ seenFiles observed := by
  intro file hfile
  rw [List.mem_append, mem_seenFiles]
  rcases ((freezePlan_ok h).1 file).mp hfile with hfile | ⟨value, hvalue, hn⟩
  · exact .inl hfile
  · rcases List.mem_append.mp hvalue with hvalue | hvalue
    · rw [hkept value hvalue file hn]
      exact .inl hvalue
    · exact .inr ⟨value, hvalue, hn⟩

/-! ## Runs -/

/-- Every plan is spelled in normal form, and nothing given back is claimed. -/
structure Kept (s : State) : Prop where
  plans : ∀ plan ∈ s.plans, ∀ value ∈ plan.expectedFiles, Normal value
  estimate : ∀ value ∈ s.estimate, Normal value
  givenBack : ∀ file ∈ s.givenBack, Normal file ∧ ¬Claims s.stored file

section
variable {s t : State}

theorem kept_narrow {frozen : AgentPlan} {released observed : List String}
    {declaration : Option HolderDeclaration} (hkept : Kept s)
    (hnormal : ∀ value ∈ frozen.expectedFiles, Normal value)
    (hreleased : ∀ file ∈ released, Normal file)
    (hout : ∀ file ∈ s.givenBack ++ released, ¬Edited observed file →
      ¬(isDeclaredClaim frozen ∧ Said declaration file) → Outside frozen file) :
    Kept (s.narrow frozen released observed declaration) := by
  refine ⟨fun plan hplan => ?_, hkept.estimate, fun file hfile => ?_⟩
  · rcases List.mem_append.mp hplan with hplan | hplan
    · exact hkept.plans plan hplan
    · rw [List.mem_singleton.mp hplan]
      exact hnormal
  · obtain ⟨hfile, hleft⟩ := List.mem_filter.mp hfile
    obtain ⟨hedited, hsaid⟩ := of_decide_eq_true hleft
    have hfileNormal : Normal file := by
      rcases List.mem_append.mp hfile with hfile | hfile
      · exact (hkept.givenBack file hfile).1
      · exact hreleased file hfile
    exact ⟨hfileNormal, (claims_iff hnormal hfileNormal).mpr (hout file hfile hedited hsaid)⟩

variable [TextRuntime] {ground : Grounding}

variable {index : Option RepositoryIndex}

theorem kept_released {plan : AgentPlan} {request : ScopeReleaseRequest}
    {working : Option (List String)} (hkept : Kept s)
    (hcareful : Careful s (.released plan request working index))
    (h : step ground s (.released plan request working index) = some t) : Kept t := by
  unfold step at h
  rw [Option.ite_none_right_eq_some] at h
  obtain ⟨hplan, h⟩ := h
  obtain ⟨asked, hasked, h⟩ := Option.bind_eq_some_iff.mp h
  obtain ⟨revised, hrevised, h⟩ := Option.bind_eq_some_iff.mp h
  obtain ⟨stored, hstored, h⟩ := Option.bind_eq_some_iff.mp h
  obtain rfl := Option.some.inj h
  obtain ⟨hcurrent, hfree⟩ := hcareful
  have hfree := hfree asked hasked
  have hplanNormal := hkept.plans plan hplan
  obtain ⟨resources, reduced, hreduced, hfiles, rfl⟩ := releasedPlan_some hrevised
  obtain ⟨hexpected, hclaim⟩ := reducePlanScope_ok hreduced hplanNormal
  have hrevisedNormal : ∀ value ∈ (releaseFromBlanketClaim reduced
      (unique (filesGivenBack plan asked))).expectedFiles, Normal value := by
    intro value hvalue
    rw [releaseFromBlanketClaim_files] at hvalue
    exact (hexpected value hvalue).2.1
  obtain ⟨hstoredFiles, hstoredClaim⟩ := storedPlan_some hstored hrevisedNormal
  have hstoredNormal : ∀ value ∈ stored.expectedFiles, Normal value :=
    fun value hvalue => (hstoredFiles value hvalue).2
  refine ⟨fun other hother => ?_, hkept.estimate, fun file hfile => ?_⟩
  · simp only [List.mem_append, List.mem_cons, List.not_mem_nil, or_false] at hother
    rcases hother with hother | rfl | rfl
    · exact hkept.plans other hother
    · exact hrevisedNormal
    · exact hstoredNormal
  · have hfileNormal : Normal file := by
      rcases List.mem_append.mp hfile with hfile | hfile
      · exact (hkept.givenBack file hfile).1
      · rcases mem_filesGivenBack hfile with hfile | hfile
        · exact hplanNormal file hfile
        · obtain ⟨paths, hpaths, hasked⟩ := except_bind_ok (toOption_eq_some hasked)
          obtain rfl := Except.ok.inj hasked
          exact normal_of_mem_unique hpaths file hfile
    refine ⟨hfileNormal, (claims_iff hstoredNormal hfileNormal).mpr ?_⟩
    have hundeclared : file ∉ stored.expectedFiles := by
      intro hmem
      have hmem := (hstoredFiles file hmem).1
      rw [releaseFromBlanketClaim_files] at hmem
      obtain ⟨hmem, -, hremoved⟩ := hexpected file hmem
      rcases List.mem_append.mp hfile with hfile | hfile
      · exact hcurrent file hfile (.inl hmem)
      · rw [hfiles] at hfile
        obtain ⟨ref, href, rfl⟩ := List.mem_map.mp hfile
        obtain ⟨href, htype⟩ := List.mem_filter.mp href
        have htype : ref.resourceType = .file := of_decide_eq_true htype
        exact hremoved (htype ▸ href)
    -- what was given back before is outside the plan the release starts from
    have hbefore (hfile : file ∈ s.givenBack) : Outside plan file :=
      (claims_iff hplanNormal hfileNormal).mp (hcurrent file hfile)
    rcases releaseFromBlanketClaim_claim reduced (unique (filesGivenBack plan asked)) with
      ⟨hnot, hsame⟩ | ⟨released, released', hblanket, hpunched, hholes⟩
    · rw [hsame, hclaim] at hstoredClaim
      have hnot : isBlanketClaim plan = false := by
        simpa only [isBlanketClaim, hclaim] using hnot
      have hunreached : ¬Reaches plan file := by
        rcases List.mem_append.mp hfile with hfile | hfile
        · exact (hbefore hfile).unreached hnot
        · exact hfree file hfile hnot
      refine ⟨hundeclared, fun released hblanket => ?_, fun _ hreached => hunreached ?_⟩
      · rw [hstoredClaim] at hblanket
        simp only [isBlanketClaim, hblanket] at hnot
        cases hnot
      · simpa only [Reaches, claimFiles, claimCoversPath, hstoredClaim] using hreached
    · rw [hpunched] at hstoredClaim
      refine ⟨hundeclared, fun released'' hblanket' => ?_, fun hnot => ?_⟩
      · rw [hstoredClaim] at hblanket'
        obtain rfl := PlanClaim.blanket.inj (Option.some.inj hblanket')
        rw [hholes file, mem_unique]
        rcases List.mem_append.mp hfile with hfile | hfile
        · exact .inl ((hbefore hfile).returned released (hclaim ▸ hblanket))
        · exact .inr hfile
      · simp only [isBlanketClaim, hstoredClaim] at hnot
        cases hnot

theorem kept_froze {plan seen : AgentPlan} {found : Narrowing} (hkept : Kept s)
    (hcareful : Careful s (.froze plan seen found))
    (h : step ground s (.froze plan seen found) = some t) : Kept t := by
  unfold step at h
  rw [Option.ite_none_right_eq_some] at h
  obtain ⟨⟨hplan, -⟩, h⟩ := h
  obtain ⟨frozen, hfrozen, h⟩ := Option.bind_eq_some_iff.mp h
  obtain rfl := Option.some.inj h
  obtain ⟨noted, hnoted, hfrozen⟩ := Option.bind_eq_some_iff.mp hfrozen
  have hfrozen := toOption_eq_some (Option.join_eq_some_iff.mp hfrozen)
  have hplanNormal := hkept.plans plan hplan
  refine kept_narrow hkept (freezeBlanket_normal hfrozen hplanNormal) (fun _ => nofun) ?_
  intro file hfile hedited hsaid
  rw [List.append_nil] at hfile
  exact freezeBlanket_outside hfrozen hplanNormal hkept.estimate (hcareful noted hnoted) hfile
    hedited hsaid

theorem kept_narrowed {arrival : Arrival} {asked : Option (AgentPlan × Narrowing)}
    (hkept : Kept s) (hcareful : Careful s (.narrowed arrival asked))
    (h : step ground s (.narrowed arrival asked) = some t) : Kept t := by
  unfold step at h
  rw [Option.ite_none_right_eq_some] at h
  obtain ⟨⟨hholder, -⟩, h⟩ := h
  obtain ⟨released, hreleased, h⟩ := Option.bind_eq_some_iff.mp h
  obtain ⟨kept, hkeptPlan, h⟩ := Option.bind_eq_some_iff.mp h
  have hcareful := hcareful released hreleased kept hkeptPlan
  have hreleasedNormal := released_normal (toOption_eq_some hreleased)
  have hkeptNormal : ∀ value ∈ kept.expectedFiles, Normal value := fun value hvalue =>
    hkept.plans _ hholder value (kept_files (toOption_eq_some hkeptPlan) value hvalue)
  cases asked with
  | some read =>
    obtain ⟨seen, found⟩ := read
    dsimp only at h
    rw [Option.ite_none_right_eq_some] at h
    obtain ⟨-, h⟩ := h
    obtain ⟨estimatedFiles, hestimated, h⟩ := Option.bind_eq_some_iff.mp h
    obtain ⟨frozen, hfrozen, h⟩ := Option.bind_eq_some_iff.mp h
    obtain rfl := Option.some.inj h
    obtain ⟨noted, hnoted, hfrozen⟩ := Option.bind_eq_some_iff.mp hfrozen
    have hfrozen := toOption_eq_some (Option.join_eq_some_iff.mp hfrozen)
    refine kept_narrow hkept (freezeBlanket_normal hfrozen hkeptNormal) hreleasedNormal ?_
    intro file hfile hedited hsaid
    exact freezeBlanket_outside hfrozen hkeptNormal
      (normal_of_mem_unique (toOption_eq_some hestimated))
      (hcareful estimatedFiles hestimated noted hnoted) hfile hedited hsaid
  | none =>
    obtain ⟨frozen, hfrozen, h⟩ := Option.bind_eq_some_iff.mp h
    obtain rfl := Option.some.inj h
    have hfrozen := toOption_eq_some hfrozen
    have hfiles := frozen_kept hfrozen hkeptNormal
    obtain ⟨hcurrent, hapart⟩ := hcareful
    refine kept_narrow hkept (fun value hvalue => ?_) hreleasedNormal ?_
    · rcases List.mem_append.mp (hfiles value hvalue) with hvalue | hvalue
      · exact hkeptNormal value hvalue
      · exact (mem_seenFiles.mp hvalue).normal
    · intro file hfile hedited hsaid
      exact outside_frozen hfrozen hfiles hcurrent hapart
        (List.mem_filter.mpr ⟨hfile, decide_eq_true hedited⟩)

theorem kept_widened {submitted : AgentPlan} (hkept : Kept s)
    (h : step ground s (.widened submitted index) = some t) : Kept t := by
  obtain ⟨plan, hplan, h⟩ := Option.bind_eq_some_iff.mp h
  obtain ⟨stored, hstored, h⟩ := Option.bind_eq_some_iff.mp h
  obtain rfl := Option.some.inj h
  have hplanNormal := (assertAgentPlan_asserted (toOption_eq_some hplan)).files.normal
  have hfiles := (storedPlan_some hstored hplanNormal).1
  refine ⟨fun other hother => ?_, hkept.estimate, fun file hfile => ?_⟩
  · simp only [List.mem_append, List.mem_cons, List.not_mem_nil, or_false] at hother
    rcases hother with hother | rfl | rfl
    · exact hkept.plans other hother
    · exact hplanNormal
    · exact fun value hvalue => (hfiles value hvalue).2
  · obtain ⟨hfile, hfree⟩ := List.mem_filter.mp hfile
    exact ⟨(hkept.givenBack file hfile).1, of_decide_eq_true hfree⟩

theorem kept_step {event : Event} (hkept : Kept s) (hcareful : Careful s event)
    (h : step ground s event = some t) : Kept t := by
  cases event with
  | released plan request working index => exact kept_released hkept hcareful h
  | froze plan seen found => exact kept_froze hkept hcareful h
  | narrowed arrival asked => exact kept_narrowed hkept hcareful h
  | widened submitted index => exact kept_widened hkept h

end

/-- A repository-wide claim as it is granted: its plan names the estimate. -/
structure Begins (s : State) : Prop where
  plans : s.plans = [s.stored]
  estimate : s.stored.expectedFiles = s.estimate
  normal : ∀ value ∈ s.estimate, Normal value
  nothing : s.givenBack = []

/-- **What was given back stays given back**: in a run of careful steps no plan on the
holder's lease claims a file that was given back, until it is edited or granted again. -/
theorem given_back_stays [TextRuntime] {ground : Grounding} {s t : State} {events : List Event}
    (hbegins : Begins s) (hcareful : Throughout (step ground) Careful s events)
    (h : run (step ground) s events = some t) :
    ∀ file ∈ t.givenBack, ¬Claims t.stored file := by
  have hkept : Kept s := by
    refine ⟨fun plan hplan value hvalue => ?_, hbegins.normal, fun file hfile => ?_⟩
    · rw [hbegins.plans, List.mem_singleton] at hplan
      rw [hplan, hbegins.estimate] at hvalue
      exact hbegins.normal value hvalue
    · rw [hbegins.nothing] at hfile
      cases hfile
  have hend : Kept t := run_invariant (fun _ _ _ => kept_step) hkept hcareful h
  exact fun file hfile => (hend.givenBack file hfile).2

/-! ## A holder with an estimate -/

def blanketOver (files : List String) (released : Option (List String)) : AgentPlan :=
  { taskId := "task", objective := "edit", expectedFiles := files, expectedSymbols := []
    claim := some (.blanket released) }

def granted (files : List String) : State :=
  ⟨blanketOver files none, [blanketOver files none], files, []⟩

/-- The holder gives back one file of the plan it was granted. -/
def giveBack (files : List String) (file : String) : Event :=
  .released (blanketOver files none)
    { id := "r", taskId := "task", releasedFiles := [file], reason := "done" } (some []) none

def tickSees (plan seen : AgentPlan) (file : String) : Event :=
  .froze plan seen ⟨none, [], fun _ => true, [file], []⟩

section
attribute [local instance] asciiRuntime

/-- A file of another directory is given back, and the claim is frozen to the rest. -/
theorem given_back_stays_frozen :
    ∃ t, run (step fun _ _ => .ok none) (granted ["lib/b.ts", "src/a.ts"])
        [giveBack ["lib/b.ts", "src/a.ts"] "lib/b.ts",
          tickSees (blanketOver ["lib/b.ts", "src/a.ts"] none)
            (blanketOver ["src/a.ts"] (some ["lib/b.ts"])) "src/a.ts"] = some t ∧
      t.givenBack = ["lib/b.ts"] ∧ t.stored.expectedFiles = ["src/a.ts"] ∧
      ∀ file ∈ t.givenBack, ¬Claims t.stored file := by
  have hfiles : (run (step fun _ _ => .ok none) (granted ["lib/b.ts", "src/a.ts"])
      [giveBack ["lib/b.ts", "src/a.ts"] "lib/b.ts",
        tickSees (blanketOver ["lib/b.ts", "src/a.ts"] none)
          (blanketOver ["src/a.ts"] (some ["lib/b.ts"])) "src/a.ts"]).map
        (fun t => (t.givenBack, t.stored.expectedFiles)) = some (["lib/b.ts"], ["src/a.ts"]) := by
    decide
  obtain ⟨t, ht, hfiles⟩ := Option.map_eq_some_iff.mp hfiles
  obtain ⟨hgiven, hexpected⟩ := Prod.mk.inj hfiles
  refine ⟨t, ht, hgiven, hexpected, given_back_stays ⟨rfl, rfl, ?_, rfl⟩ (by decide) ht⟩
  intro value hvalue again hagain
  simp only [granted, List.mem_cons, List.not_mem_nil, or_false] at hvalue
  rcases hvalue with rfl | rfl
  · exact Except.ok.inj (hagain.symm.trans (by decide))
  · exact Except.ok.inj (hagain.symm.trans (by decide))

/-- **An arrival that read the plan before a file was given back puts the file back in it;
and a claim frozen to a file next to one given back covers both.** -/
theorem given_back_returns :
    (∃ t, run (step fun _ _ => .ok none) (granted ["lib/b.ts", "src/a.ts"])
        [giveBack ["lib/b.ts", "src/a.ts"] "lib/b.ts",
          .narrowed ⟨blanketOver ["lib/b.ts", "src/a.ts"] none, ["docs/c.md"], []⟩ none] =
            some t ∧ "lib/b.ts" ∈ t.givenBack ∧ "lib/b.ts" ∈ t.stored.expectedFiles) ∧
    ∃ t, run (step fun _ _ => .ok none) (granted ["src/a.ts", "src/b.ts"])
        [giveBack ["src/a.ts", "src/b.ts"] "src/b.ts",
          tickSees (blanketOver ["src/a.ts", "src/b.ts"] none)
            (blanketOver ["src/a.ts"] (some ["src/b.ts"])) "src/a.ts"] = some t ∧
      "src/b.ts" ∈ t.givenBack ∧ claimCoversPath t.stored "src/b.ts" = .ok true := by
  have hrun {o : Option State} {P : State → Prop} [DecidablePred P]
      (h : (o.map fun t => decide (P t)) = some true) : ∃ t, o = some t ∧ P t := by
    obtain ⟨t, ht, hp⟩ := Option.map_eq_some_iff.mp h
    exact ⟨t, ht, of_decide_eq_true hp⟩
  exact ⟨hrun (by decide), hrun (by decide)⟩

end

end AgenticGit.Coordinator.GivenBack
