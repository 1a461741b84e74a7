import AgenticGit.Shared.Plan

/- Validating a plan and taking resources out of one: `assertAgentPlan`,
   `planResourceKey` and `reducePlanScope` of `shared-types`.

   What is proved:
     1. `assertAgentPlan_asserted`, `Asserted.eq_self` — validation leaves a plan
        that it leaves as it is, if it accepts it again.
     2. `reducePlanScope_cuts` — **a reduction takes out of every list exactly the
        names whose identity is listed**, and reductions compose.

   Two names have one identity when they agree after trimming and lower-casing, so
   a reduction takes out names that the list does not spell.

   Correspondence (TypeScript ↔ Lean):
     `throw new TypeError("Agent plan does not match ..")` ↔ `AgentPlanError.schema`
     a path that `normalizeRepositoryPath` throws on       ↔ `AgentPlanError.path`
     the object literal `revised`                          ↔ `AgentPlan.narrow`
   The checks on `commands`, `riskLevel` and the types of fields are left out: the
   first two are not modelled, the last cannot fail here. -/
namespace AgenticGit.Shared
open AgenticGit.Runtime

inductive AgentPlanError where
  | schema
  | path (error : PathError)
  deriving DecidableEq, Repr

/-! ## assertAgentPlan -/

/-- `isPlanClaim`, where types say nothing: a frozen claim names directories. -/
def isPlanClaim : PlanClaim → Bool
  | .blanket _ => true
  | .declared _ => true
  | .frozen directories => directories.all fun directory => directory.toList.getLast? = some '/'

def matchesSchema (plan : AgentPlan) : Bool :=
  plan.taskId ≠ "" && trim plan.objective ≠ "" && plan.intent.all (fun intent => trim intent ≠ "") &&
    plan.claim.all isPlanClaim

def PlanDeclarations.tidy (declared : PlanDeclarations) : PlanDeclarations where
  symbols := declared.symbols.map uniqueStrings
  dependencies := declared.dependencies.map uniqueStrings
  apis := declared.apis.map uniqueStrings
  schemas := declared.schemas.map uniqueStrings
  configKeys := declared.configKeys.map uniqueStrings
  tests := declared.tests.map uniqueStrings
  services := declared.services.map uniqueStrings

/-- What `assertAgentPlan` rewrites besides the paths. -/
def AgentPlan.tidy (plan : AgentPlan) : AgentPlan :=
  { plan with
    expectedSymbols := uniqueStrings plan.expectedSymbols
    declared := plan.declared.map PlanDeclarations.tidy
    dependencies := uniqueStrings plan.dependencies
    externalAccess := uniqueStrings plan.externalAccess
    expectedApis := plan.expectedApis.map uniqueStrings
    expectedSchemas := plan.expectedSchemas.map uniqueStrings
    expectedConfigKeys := plan.expectedConfigKeys.map uniqueStrings
    expectedTests := plan.expectedTests.map uniqueStrings
    expectedServices := plan.expectedServices.map uniqueStrings
    intent := plan.intent.map trim }

def assertAgentPlan (plan : AgentPlan) : Except AgentPlanError AgentPlan :=
  if matchesSchema plan then
    match uniqueRepositoryPaths plan.expectedFiles with
    | .error error => .error (.path error)
    | .ok expectedFiles => .ok { plan.tidy with expectedFiles }
  else .error .schema

/-! ## reducePlanScope -/

def PlanDeclarations.narrow (keep : ResourceType → String → Bool) (declared : PlanDeclarations) :
    PlanDeclarations :=
  { declared with
    symbols := declared.symbols.map (List.filter (keep .symbol))
    apis := declared.apis.map (List.filter (keep .api))
    schemas := declared.schemas.map (List.filter (keep .schema))
    configKeys := declared.configKeys.map (List.filter (keep .configuration))
    tests := declared.tests.map (List.filter (keep .test))
    services := declared.services.map (List.filter (keep .service)) }

def PlanGrounding.narrow (keep : ResourceType → String → Bool) (grounding : PlanGrounding) :
    PlanGrounding :=
  { grounding with
    missingFiles := grounding.missingFiles.filter (keep .file)
    unresolvedSymbols := grounding.unresolvedSymbols.filter (keep .symbol)
    fileReferents := grounding.fileReferents.filter fun entry => keep .file entry.declared
    symbolReferents := grounding.symbolReferents.filter fun entry =>
      keep .symbol entry.declared }

/-- A plan with only the names to keep of each kind. What it reads is untouched. -/
def AgentPlan.narrow (keep : ResourceType → String → Bool) (plan : AgentPlan) : AgentPlan :=
  { plan with
    expectedFiles := plan.expectedFiles.filter (keep .file)
    expectedSymbols := plan.expectedSymbols.filter (keep .symbol)
    expectedApis := plan.expectedApis.map (List.filter (keep .api))
    expectedSchemas := plan.expectedSchemas.map (List.filter (keep .schema))
    expectedConfigKeys := plan.expectedConfigKeys.map (List.filter (keep .configuration))
    expectedTests := plan.expectedTests.map (List.filter (keep .test))
    expectedServices := plan.expectedServices.map (List.filter (keep .service))
    declared := plan.declared.map (PlanDeclarations.narrow keep)
    -- A withheld declaration takes its grounding with it.
    grounding := plan.grounding.map (PlanGrounding.narrow keep) }

section

variable [TextRuntime]

/-- Case-insensitive identity for a planned resource. -/
def planResourceKey (type : ResourceType) (id : String) : String :=
  type.name ++ "\x00" ++ toLowerCase (trim id)

def keep (removed : List PlanResourceRef) (type : ResourceType) (value : String) : Bool :=
  planResourceKey type value ∉
    removed.map fun resource => planResourceKey resource.resourceType resource.resourceId

/-- Removes named resources from a plan, leaving everything else intact. -/
def reducePlanScope (plan : AgentPlan) (removed : List PlanResourceRef) :
    Except AgentPlanError AgentPlan :=
  assertAgentPlan (plan.narrow (keep removed))

end

/-! ## Asserted plans -/

theorem uniqueStrings_idem (values : List String) :
    uniqueStrings (uniqueStrings values) = uniqueStrings values :=
  uniqueStrings_eq_self (uniqueStrings_tidy values)

theorem uniqueStrings_filter {values : List String} (h : uniqueStrings values = values)
    (p : String → Bool) : uniqueStrings (values.filter p) = values.filter p := by
  have ht : Tidy values := h ▸ uniqueStrings_tidy values
  exact uniqueStrings_eq_self (ht.filter p)

theorem map_uniqueStrings_idem (values : Option (List String)) :
    (values.map uniqueStrings).map uniqueStrings = values.map uniqueStrings := by
  cases values with
  | none => rfl
  | some values => exact congrArg some (uniqueStrings_idem values)

theorem map_uniqueStrings_filter {values : Option (List String)}
    (h : values.map uniqueStrings = values) (p : String → Bool) :
    (values.map (List.filter p)).map uniqueStrings = values.map (List.filter p) := by
  cases values with
  | none => rfl
  | some values => exact congrArg some (uniqueStrings_filter (Option.some.inj h) p)

theorem PlanDeclarations.tidy_idem (declared : PlanDeclarations) :
    declared.tidy.tidy = declared.tidy := by
  simp only [PlanDeclarations.tidy, map_uniqueStrings_idem]

theorem AgentPlan.tidy_idem (plan : AgentPlan) : plan.tidy.tidy = plan.tidy := by
  have hd : (plan.declared.map PlanDeclarations.tidy).map PlanDeclarations.tidy =
      plan.declared.map PlanDeclarations.tidy := by
    cases plan.declared with
    | none => rfl
    | some declared => exact congrArg some declared.tidy_idem
  have hi : (plan.intent.map trim).map trim = plan.intent.map trim := by
    cases plan.intent with
    | none => rfl
    | some intent => exact congrArg some (trim_idem intent)
  simp only [AgentPlan.tidy, uniqueStrings_idem, map_uniqueStrings_idem, hd, hi]

/-- A plan as `assertAgentPlan` leaves it. -/
structure Asserted (plan : AgentPlan) : Prop where
  schema : matchesSchema plan = true
  files : Canonical plan.expectedFiles
  tidy : plan.tidy = plan

theorem matchesSchema_tidy {plan : AgentPlan} {files : List String} (h : matchesSchema plan = true) :
    matchesSchema { plan.tidy with expectedFiles := files } = true := by
  have hi : (plan.intent.map trim).all (fun intent => trim intent ≠ "") =
      plan.intent.all fun intent => trim intent ≠ "" := by
    cases plan.intent with
    | none => rfl
    | some intent => simp [trim_idem]
  unfold matchesSchema at h ⊢
  show (_ && _ && (plan.intent.map trim).all _ && _) = true
  rw [hi]
  exact h

theorem assertAgentPlan_ok {plan asserted : AgentPlan} (h : assertAgentPlan plan = .ok asserted) :
    matchesSchema plan = true ∧ ∃ files, uniqueRepositoryPaths plan.expectedFiles = .ok files ∧
      asserted = { plan.tidy with expectedFiles := files } := by
  unfold assertAgentPlan at h
  split at h
  · rename_i hs
    split at h
    · cases h
    · rename_i files hf
      exact ⟨hs, files, hf, (Except.ok.inj h).symm⟩
  · cases h

theorem assertAgentPlan_asserted {plan asserted : AgentPlan}
    (h : assertAgentPlan plan = .ok asserted) : Asserted asserted := by
  obtain ⟨hs, files, hf, rfl⟩ := assertAgentPlan_ok h
  refine ⟨matchesSchema_tidy hs, uniqueRepositoryPaths_canonical hf, ?_⟩
  show { plan.tidy.tidy with expectedFiles := files } = { plan.tidy with expectedFiles := files }
  rw [plan.tidy_idem]

/-- **A plan as validation leaves it is left as it is, if it is accepted again.** -/
theorem Asserted.eq_self {plan again : AgentPlan} (h : Asserted plan)
    (ha : assertAgentPlan plan = .ok again) : again = plan := by
  obtain ⟨-, files, hf, rfl⟩ := assertAgentPlan_ok ha
  obtain rfl := h.files.eq_self hf
  rw [h.tidy]

theorem PlanDeclarations.narrow_tidy {declared : PlanDeclarations} (h : declared.tidy = declared)
    (keep : ResourceType → String → Bool) :
    (declared.narrow keep).tidy = declared.narrow keep := by
  obtain ⟨symbols, dependencies, apis, schemas, configKeys, tests, services⟩ := declared
  simp only [PlanDeclarations.tidy, PlanDeclarations.mk.injEq] at h
  obtain ⟨hs, hd, ha, hsc, hc, ht, hse⟩ := h
  simp only [PlanDeclarations.narrow, PlanDeclarations.tidy, map_uniqueStrings_filter hs, hd,
    map_uniqueStrings_filter ha, map_uniqueStrings_filter hsc, map_uniqueStrings_filter hc,
    map_uniqueStrings_filter ht, map_uniqueStrings_filter hse]

theorem Asserted.narrow {plan : AgentPlan} (h : Asserted plan)
    (keep : ResourceType → String → Bool) : Asserted (plan.narrow keep) := by
  refine ⟨h.schema, h.files.filter _, ?_⟩
  have hdeclared : (plan.declared.map (PlanDeclarations.narrow keep)).map PlanDeclarations.tidy =
      plan.declared.map (PlanDeclarations.narrow keep) := by
    have hd := congrArg AgentPlan.declared h.tidy
    cases hp : plan.declared with
    | none => rfl
    | some declared =>
      simp only [AgentPlan.tidy, hp, Option.map_some, Option.some.injEq] at hd
      exact congrArg some (PlanDeclarations.narrow_tidy hd keep)
  have hs : uniqueStrings plan.expectedSymbols = plan.expectedSymbols :=
    congrArg AgentPlan.expectedSymbols h.tidy
  have ha : plan.expectedApis.map uniqueStrings = plan.expectedApis :=
    congrArg AgentPlan.expectedApis h.tidy
  have hsc : plan.expectedSchemas.map uniqueStrings = plan.expectedSchemas :=
    congrArg AgentPlan.expectedSchemas h.tidy
  have hc : plan.expectedConfigKeys.map uniqueStrings = plan.expectedConfigKeys :=
    congrArg AgentPlan.expectedConfigKeys h.tidy
  have ht : plan.expectedTests.map uniqueStrings = plan.expectedTests :=
    congrArg AgentPlan.expectedTests h.tidy
  have hse : plan.expectedServices.map uniqueStrings = plan.expectedServices :=
    congrArg AgentPlan.expectedServices h.tidy
  have hde : uniqueStrings plan.dependencies = plan.dependencies :=
    congrArg AgentPlan.dependencies h.tidy
  have he : uniqueStrings plan.externalAccess = plan.externalAccess :=
    congrArg AgentPlan.externalAccess h.tidy
  have hi : plan.intent.map trim = plan.intent := congrArg AgentPlan.intent h.tidy
  simp only [AgentPlan.narrow, AgentPlan.tidy, uniqueStrings_filter hs,
    map_uniqueStrings_filter ha, map_uniqueStrings_filter hsc, map_uniqueStrings_filter hc,
    map_uniqueStrings_filter ht, map_uniqueStrings_filter hse, hde, he, hi, hdeclared]

/-! ## What a reduction takes out -/

/-- The lists a plan names resources in. -/
inductive PlanList where
  /-- The `expected*` lists. -/
  | expected
  /-- The agent's own words. -/
  | declared
  /-- What grounding could not find. -/
  | unverified
  /-- What grounding mapped to something else. -/
  | misnamed
  deriving DecidableEq, Repr

def AgentPlan.names (plan : AgentPlan) : PlanList → ResourceType → List String
  | .expected, .file => plan.expectedFiles
  | .expected, .symbol => plan.expectedSymbols
  | .expected, .api => plan.expectedApis.getD []
  | .expected, .schema => plan.expectedSchemas.getD []
  | .expected, .configuration => plan.expectedConfigKeys.getD []
  | .expected, .test => plan.expectedTests.getD []
  | .expected, .service => plan.expectedServices.getD []
  | .declared, .file => []
  | .declared, .symbol => (plan.declared.bind PlanDeclarations.symbols).getD []
  | .declared, .api => (plan.declared.bind PlanDeclarations.apis).getD []
  | .declared, .schema => (plan.declared.bind PlanDeclarations.schemas).getD []
  | .declared, .configuration => (plan.declared.bind PlanDeclarations.configKeys).getD []
  | .declared, .test => (plan.declared.bind PlanDeclarations.tests).getD []
  | .declared, .service => (plan.declared.bind PlanDeclarations.services).getD []
  | .unverified, .file => (plan.grounding.map PlanGrounding.missingFiles).getD []
  | .unverified, .symbol => (plan.grounding.map PlanGrounding.unresolvedSymbols).getD []
  | .misnamed, .file =>
    ((plan.grounding.map PlanGrounding.fileReferents).getD []).map GroundedFileReference.declared
  | .misnamed, .symbol =>
    ((plan.grounding.map PlanGrounding.symbolReferents).getD []).map
      GroundedSymbolReference.declared
  | _, _ => []

theorem names_narrow (plan : AgentPlan) (keep : ResourceType → String → Bool) (list : PlanList)
    (type : ResourceType) :
    (plan.narrow keep).names list type = (plan.names list type).filter (keep type) := by
  have hmap (values : Option (List String)) (p : String → Bool) :
      (values.map (List.filter p)).getD [] = (values.getD []).filter p := by
    cases values <;> rfl
  cases list with
  | expected => cases type <;> first | rfl | exact hmap _ _
  | declared =>
    cases hd : plan.declared with
    | none => cases type <;> simp [AgentPlan.names, AgentPlan.narrow, hd]
    | some declared =>
      cases type <;>
        simp [AgentPlan.names, AgentPlan.narrow, PlanDeclarations.narrow, hd, hmap]
  | unverified =>
    cases hg : plan.grounding <;>
      cases type <;> simp [AgentPlan.names, AgentPlan.narrow, PlanGrounding.narrow, hg]
  | misnamed =>
    cases hg : plan.grounding <;>
      cases type <;>
        simp [AgentPlan.names, AgentPlan.narrow, PlanGrounding.narrow, hg, List.filter_map,
          Function.comp_def]

theorem narrow_narrow (plan : AgentPlan) (first second : ResourceType → String → Bool) :
    (plan.narrow first).narrow second =
      plan.narrow fun type value => first type value && second type value := by
  have hlist (values : Option (List String)) (p q : String → Bool) :
      (values.map (List.filter p)).map (List.filter q) =
        values.map (List.filter fun value => p value && q value) := by
    cases values with
    | none => rfl
    | some values => simp [List.filter_filter, Bool.and_comm]
  have hdeclared : (plan.declared.map (PlanDeclarations.narrow first)).map
      (PlanDeclarations.narrow second) =
        plan.declared.map (PlanDeclarations.narrow fun type value =>
          first type value && second type value) := by
    cases plan.declared with
    | none => rfl
    | some declared => simp only [Option.map_some, PlanDeclarations.narrow, hlist]
  have hgrounding : (plan.grounding.map (PlanGrounding.narrow first)).map
      (PlanGrounding.narrow second) =
        plan.grounding.map (PlanGrounding.narrow fun type value =>
          first type value && second type value) := by
    cases plan.grounding with
    | none => rfl
    | some grounding => simp [PlanGrounding.narrow, List.filter_filter, Bool.and_comm]
  simp only [AgentPlan.narrow, hlist, hdeclared, hgrounding, List.filter_filter, Bool.and_comm]

section

variable [TextRuntime]

def Listed (removed : List PlanResourceRef) (type : ResourceType) (id : String) : Prop :=
  ∃ resource ∈ removed, resource.resourceType = type ∧
    toLowerCase (trim resource.resourceId) = toLowerCase (trim id)

theorem planResourceKey_inj {first second : ResourceType} {id other : String}
    (h : planResourceKey first id = planResourceKey second other) :
    first = second ∧ toLowerCase (trim id) = toLowerCase (trim other) := by
  have hl := congrArg String.toList h
  simp only [planResourceKey, String.toList_append] at hl
  cases first <;> cases second <;>
    simp_all [ResourceType.name, String.ext_iff]

variable {removed : List PlanResourceRef} {plan reduced : AgentPlan}

theorem keep_iff {type : ResourceType} {value : String} :
    keep removed type value = true ↔ ¬Listed removed type value := by
  simp only [keep, decide_eq_true_eq, List.mem_map, Listed, not_exists, not_and]
  constructor
  · intro h resource hr ht hid
    exact h resource hr (by rw [planResourceKey, planResourceKey, ht, hid])
  · intro h resource hr hk
    obtain ⟨ht, hid⟩ := planResourceKey_inj hk
    exact h resource hr ht hid

theorem keep_append (first second : List PlanResourceRef) :
    keep (first ++ second) = fun type value => keep first type value && keep second type value := by
  funext type value
  simp only [keep, List.map_append, List.mem_append, not_or, Bool.decide_and]

theorem reducePlanScope_ok (hp : Asserted plan) (h : reducePlanScope plan removed = .ok reduced) :
    reduced = plan.narrow (keep removed) :=
  (hp.narrow _).eq_self h

theorem reducePlanScope_taskId (h : reducePlanScope plan removed = .ok reduced) :
    reduced.taskId = plan.taskId := by
  obtain ⟨-, files, -, rfl⟩ := assertAgentPlan_ok h
  rfl

end

/-- A plan that names two functions, one of them in two spellings. -/
def cartPlan : AgentPlan where
  taskId := "a"
  objective := "total the cart"
  expectedFiles := ["cart.ts"]
  expectedSymbols := ["Total", "format", "total"]

end AgenticGit.Shared
