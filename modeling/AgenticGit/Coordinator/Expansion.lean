import AgenticGit.Shared.ScopeChange
import AgenticGit.Coordinator.Narrowing

/- What an approved expansion counts for when the widened plan is scored against another
   one: `mergePlanScope` of `shared-types` before `ConflictDetector.assess`.

   Correspondence (TypeScript ↔ Lean):
     the plan `handleAgentEvent` assesses: what `groundPlan` returns for
       `mergePlanScope(entry.plan, request)`  ↔ the merged plan, with any grounding
     the seven kinds of evidence a resource scores under ↔ `evidenceKind`
     `asDeclared(plan, key, plan.expected..)`, for each kind ↔ `ownNames`

   What is proved:
     1. `shows_iff` — an assessment has evidence that names a resource exactly when its kind
        weighs something and the list scored under that kind names it.
     2. `expansion_weighs_iff` — **when what a request adds counts as declared**.
     3. `expansion_unseen` — a symbol added to a plan whose declared record names no symbols
        does not. -/
namespace AgenticGit.Coordinator
open AgenticGit.Runtime AgenticGit.Shared

/-! ## Kinds -/

/-- The evidence a resource of one kind is scored under. -/
def evidenceKind : ResourceType → ConflictEvidenceKind
  | .file => .fileOverlap
  | .symbol => .symbolOverlap
  | .api => .apiOverlap
  | .schema => .schemaOverlap
  | .configuration => .configurationOverlap
  | .test => .testOverlap
  | .service => .dependencyImpact

def weightOf (options : ResolvedConflictOptions) : ResourceType → ℚ
  | .file => options.fileOverlapWeight
  | .symbol => options.symbolOverlapWeight
  | .api => options.apiOverlapWeight
  | .schema => options.schemaOverlapWeight
  | .configuration => options.configurationOverlapWeight
  | .test => options.testOverlapWeight
  | .service => options.dependencyImpactWeight

/-- The names of one kind as the agent declared them. -/
def ownNames (plan : AgentPlan) : ResourceType → List String
  | .file => plan.expectedFiles
  | .symbol => plan.ownSymbols
  | .api => ownApis plan
  | .schema => ownSchemas plan
  | .configuration => ownConfigKeys plan
  | .test => ownTests plan
  | .service => ownServices plan

section
variable [TextRuntime]

/-- The plan declares the resource, in whatever case. -/
def Declares (plan : AgentPlan) (type : ResourceType) (name : String) : Prop :=
  ∃ own ∈ ownNames plan type, toLowerCase own = toLowerCase name

/-- What is listed under one kind of evidence for two plans that collide on `files`. -/
def scored (left right : AgentPlan) (files : List String) : ResourceType → List String
  | .file => files
  | .symbol => overlap (arbitrationSymbols left) (arbitrationSymbols right)
  | .api => overlap (ownApis left) (ownApis right)
  | .schema => overlap (ownSchemas left) (ownSchemas right)
  | .configuration => overlap (ownConfigKeys left) (ownConfigKeys right)
  | .test => overlap (ownTests left) (ownTests right)
  | .service => dependencyImpact left right

/-- A listed resource names it: a path without the space around it, a service with what it
is, anything else as it is. -/
def Spells (type : ResourceType) (name resource : String) : Prop :=
  match type with
  | .file => ∃ path, toLowerCase path = toLowerCase name ∧ trim path = resource
  | .service =>
    ∃ service, toLowerCase service = toLowerCase name ∧ "service:" ++ service = resource
  | _ => toLowerCase resource = toLowerCase name

/-- The assessment is there, keeps the two plans from running together, and has evidence of
the resource's kind that names it. -/
def Shows (found : Option ConflictAssessment) (type : ResourceType) (name : String) : Prop :=
  ∃ assessment, found = some assessment ∧ structuralConflict assessment = true ∧
    ∃ entry ∈ assessment.evidence, entry.kind = evidenceKind type ∧ entry.advisory = false ∧
      0 < entry.score ∧ ∃ resource ∈ entry.resources, Spells type name resource

/-! ## Evidence of one kind -/

omit [TextRuntime] in
theorem evidence_fields {kind : ConflictEvidenceKind} {resources : List String}
    {taskIds : String × String} {score : ℚ} {advisory : Bool} {explanation : Option String}
    {entry : ConflictEvidence}
    (h : evidence kind resources taskIds score advisory explanation = some entry) :
    entry.kind = kind ∧ entry.resources = resources ∧ entry.score = score := by
  unfold evidence at h
  rw [Option.ite_none_left_eq_some] at h
  obtain rfl := Option.some.inj h.2
  exact ⟨rfl, rfl, rfl⟩

variable {self : ConflictDetector} {first second : AgentPlan} {occupancy : Option FileOccupancy}

theorem mem_items {left right : AgentPlan} {files : List String} {intent : Option IntentResult}
    {entry : ConflictEvidence} {type : ResourceType}
    (hentry : entry ∈ self.items left right files intent) (hkind : entry.kind = evidenceKind type) :
    ∃ explanation, evidence (evidenceKind type) (scored left right files type)
      (left.taskId, right.taskId)
      ((scored left right files type).length * weightOf self.options type) false explanation =
        some entry := by
  obtain ⟨option, hoption, hsome⟩ := List.mem_filterMap.mp hentry
  obtain rfl : option = some entry := hsome
  simp only [List.mem_cons, List.not_mem_nil, or_false] at hoption
  have hother {kind : ConflictEvidenceKind} {resources : List String} {score : ℚ}
      {advisory : Bool} {explanation : Option String} (hne : kind ≠ evidenceKind type)
      (h : some entry = evidence kind resources (left.taskId, right.taskId) score advisory
        explanation) : False :=
    hne ((evidence_fields h.symm).1.symm.trans hkind)
  rcases hoption with h | h | h | h | h | h | h | h | h
  · cases type with
    | file => exact ⟨_, h.symm⟩
    | _ => exact (hother (by decide) h).elim
  · cases type with
    | symbol => exact ⟨_, h.symm⟩
    | _ => exact (hother (by decide) h).elim
  · cases type with
    | service => exact ⟨_, h.symm⟩
    | _ => exact (hother (by decide) h).elim
  · cases type with
    | api => exact ⟨_, h.symm⟩
    | _ => exact (hother (by decide) h).elim
  · cases type with
    | schema => exact ⟨_, h.symm⟩
    | _ => exact (hother (by decide) h).elim
  · cases type with
    | configuration => exact ⟨_, h.symm⟩
    | _ => exact (hother (by decide) h).elim
  · cases type with
    | test => exact ⟨_, h.symm⟩
    | _ => exact (hother (by decide) h).elim
  · rw [eq_comm, Option.ite_none_left_eq_some] at h
    exact (hother (by cases type <;> decide) h.2.symm).elim
  · split at h
    · obtain ⟨result, -, hresult⟩ := Option.bind_eq_some_iff.mp h.symm
      split at hresult
      · obtain rfl := Option.some.inj hresult
        cases type <;> cases hkind
      · cases hresult
    · cases h

theorem items_mem (self : ConflictDetector) (left right : AgentPlan) (files : List String)
    (intent : Option IntentResult) (type : ResourceType)
    (hne : scored left right files type ≠ []) (hw : 0 < weightOf self.options type) :
    ∃ entry ∈ self.items left right files intent, entry.kind = evidenceKind type ∧
      entry.advisory = false ∧ 0 < entry.score ∧
      entry.resources = scored left right files type := by
  have hpos : (0 : ℚ) <
      (scored left right files type).length * weightOf self.options type :=
    mul_pos (Nat.cast_pos.mpr (List.length_pos_of_ne_nil hne)) hw
  have hentry (explanation : Option String) := evidence_eq_some (evidenceKind type)
    (left.taskId, right.taskId) false explanation hne hpos
  cases type with
  | file =>
    exact ⟨_, List.mem_filterMap.mpr ⟨_, .head _, hentry _⟩, rfl, rfl, hpos, rfl⟩
  | symbol =>
    exact ⟨_, List.mem_filterMap.mpr ⟨_, .tail _ (.head _), hentry _⟩, rfl, rfl, hpos, rfl⟩
  | service =>
    exact ⟨_, List.mem_filterMap.mpr ⟨_, .tail _ (.tail _ (.head _)), hentry _⟩, rfl, rfl, hpos,
      rfl⟩
  | api =>
    exact ⟨_, List.mem_filterMap.mpr ⟨_, .tail _ (.tail _ (.tail _ (.head _))), hentry _⟩, rfl,
      rfl, hpos, rfl⟩
  | schema =>
    exact ⟨_, List.mem_filterMap.mpr
      ⟨_, .tail _ (.tail _ (.tail _ (.tail _ (.head _)))), hentry _⟩, rfl, rfl, hpos, rfl⟩
  | configuration =>
    exact ⟨_, List.mem_filterMap.mpr
      ⟨_, .tail _ (.tail _ (.tail _ (.tail _ (.tail _ (.head _))))), hentry _⟩, rfl, rfl, hpos,
      rfl⟩
  | test =>
    exact ⟨_, List.mem_filterMap.mpr
      ⟨_, .tail _ (.tail _ (.tail _ (.tail _ (.tail _ (.tail _ (.head _)))))), hentry _⟩, rfl,
      rfl, hpos, rfl⟩

theorem scored_completed (left right : AgentPlan) (files : List String) (type : ResourceType) :
    scored (completed left) (completed right) files type = scored left right files type := by
  cases type with
  | file => rfl
  | symbol => rfl
  | service => simp only [scored, dependencyImpact, ownDependencies_completed,
      resourceNames_completed, ownServices_completed]
  | api => simp only [scored, ownApis_completed]
  | schema => simp only [scored, ownSchemas_completed]
  | configuration => simp only [scored, ownConfigKeys_completed]
  | test => simp only [scored, ownTests_completed]

/-- **An assessment shows a resource exactly when its kind weighs something and what is
scored under it names it.** -/
theorem shows_iff [Printer] {intentAssessment : Option IntentConflictAssessment}
    {found : Option ConflictAssessment} {files : List String}
    (hfiles : overlappingFiles (completed first) (completed second) occupancy = .ok files)
    (h : self.assess first second occupancy intentAssessment = .ok found) (type : ResourceType)
    (name : String) : Shows found type name ↔ 0 < weightOf self.options type ∧
      ∃ resource ∈ scored first second files type, Spells type name resource := by
  unfold ConflictDetector.assess at h
  dsimp only at h
  rw [hfiles] at h
  have h := Except.ok.inj h
  constructor
  · rintro ⟨assessment, hfound, -, entry, hentry, hkind, -, hscore, resource, hresource, hspells⟩
    rw [ConflictDetector.conclude_evidence (h.trans hfound)] at hentry
    obtain ⟨explanation, hevidence⟩ := mem_items hentry hkind
    obtain ⟨-, hresources, hscore'⟩ := evidence_fields hevidence
    rw [scored_completed] at hresources hscore'
    refine ⟨?_, resource, hresources ▸ hresource, hspells⟩
    by_contra hweight
    rw [hscore'] at hscore
    exact absurd hscore (not_lt.mpr
      (mul_nonpos_of_nonneg_of_nonpos (Nat.cast_nonneg _) (not_lt.mp hweight)))
  · rintro ⟨hweight, resource, hresource, hspells⟩
    obtain ⟨entry, hentry, hkind, hadvisory, hscore, hresources⟩ := items_mem self
      (completed first) (completed second) files _ type
      (by rw [scored_completed]; exact List.ne_nil_of_mem hresource) hweight
    obtain ⟨assessment, hassessment⟩ := self.conclude_isSome (first.taskId, second.taskId) hentry
      (by rw [hkind]; cases type <;> decide)
    have hevidence := ConflictDetector.conclude_evidence hassessment
    refine ⟨assessment, h ▸ hassessment, ?_, entry, hevidence ▸ hentry, hkind, hadvisory, hscore,
      resource, ?_, hspells⟩
    · rw [structuralConflict_iff, hevidence]
      exact ⟨entry, hentry, hadvisory, hscore⟩
    · rw [hresources, scored_completed]
      exact hresource

/-! ## Lists of asserted plans -/

omit [TextRuntime] in
theorem uniqueStrings_getD (values : Option (List String)) :
    (values.map uniqueStrings).getD [] = uniqueStrings (values.getD []) := by
  cases values with
  | none => rfl
  | some values => rfl

omit [TextRuntime] in
theorem asDeclared_none {plan : AgentPlan} (h : plan.declared = none)
    (key : PlanDeclarations → Option (List String)) (expected : Option (List String)) :
    asDeclared plan key expected = expected.getD [] := by
  unfold asDeclared
  rw [h]

omit [TextRuntime] in
theorem asDeclared_some {plan : AgentPlan} {declared : PlanDeclarations}
    (h : plan.declared = some declared) (key : PlanDeclarations → Option (List String))
    (expected : Option (List String)) : asDeclared plan key expected = (key declared).getD [] := by
  unfold asDeclared
  rw [h]

omit [TextRuntime] in
theorem asDeclared_tidy (plan : AgentPlan) (key : PlanDeclarations → Option (List String))
    (expected : Option (List String)) (h : ∀ declared : PlanDeclarations,
      key declared.tidy = (key declared).map uniqueStrings) :
    asDeclared plan.tidy key (expected.map uniqueStrings) =
      uniqueStrings (asDeclared plan key expected) := by
  have hmap : plan.tidy.declared = plan.declared.map PlanDeclarations.tidy := rfl
  cases hdeclared : plan.declared with
  | none =>
    rw [asDeclared_none (by rw [hmap, hdeclared]; rfl), asDeclared_none hdeclared]
    exact uniqueStrings_getD expected
  | some declared =>
    rw [asDeclared_some (by rw [hmap, hdeclared]; rfl), asDeclared_some hdeclared, h]
    exact uniqueStrings_getD _

omit [TextRuntime] in
theorem ownNames_tidy (plan : AgentPlan) {type : ResourceType} (h : type ≠ .file) :
    ownNames plan.tidy type = uniqueStrings (ownNames plan type) := by
  cases type with
  | file => exact absurd rfl h
  | symbol =>
    show ((plan.declared.map PlanDeclarations.tidy).bind PlanDeclarations.symbols).getD
      (uniqueStrings plan.expectedSymbols) = uniqueStrings plan.ownSymbols
    unfold AgentPlan.ownSymbols
    cases plan.declared with
    | none => rfl
    | some declared =>
      show (declared.symbols.map uniqueStrings).getD _ = uniqueStrings (declared.symbols.getD _)
      cases declared.symbols with
      | none => rfl
      | some symbols => rfl
  | api => exact asDeclared_tidy plan PlanDeclarations.apis _ fun _ => rfl
  | schema => exact asDeclared_tidy plan PlanDeclarations.schemas _ fun _ => rfl
  | configuration => exact asDeclared_tidy plan PlanDeclarations.configKeys _ fun _ => rfl
  | test => exact asDeclared_tidy plan PlanDeclarations.tests _ fun _ => rfl
  | service => exact asDeclared_tidy plan PlanDeclarations.services _ fun _ => rfl

omit [TextRuntime] in
theorem ownDependencies_tidy (plan : AgentPlan) :
    ownDependencies plan.tidy = uniqueStrings (ownDependencies plan) :=
  asDeclared_tidy plan PlanDeclarations.dependencies (some plan.dependencies) fun _ => rfl

omit [TextRuntime] in
theorem ownNames_tidied {plan : AgentPlan} (h : Asserted plan) {type : ResourceType}
    (hne : type ≠ .file) : Tidy (ownNames plan type) := by
  rw [← h.tidy, ownNames_tidy plan hne]
  exact uniqueStrings_tidy _

omit [TextRuntime] in
theorem ownDependencies_tidied {plan : AgentPlan} (h : Asserted plan) :
    Tidy (ownDependencies plan) := by
  rw [← h.tidy, ownDependencies_tidy]
  exact uniqueStrings_tidy _

theorem arbitrationSymbols_tidied {plan : AgentPlan} (h : Asserted plan) :
    Tidy (arbitrationSymbols plan) := by
  unfold arbitrationSymbols
  split
  · exact @ownNames_tidied plan h .symbol (by decide)
  · exact uniqueStrings_tidy _

theorem ownSymbols_subset {plan : AgentPlan} (h : Asserted plan) :
    plan.ownSymbols ⊆ arbitrationSymbols plan := by
  intro symbol hsymbol
  unfold arbitrationSymbols
  split
  · exact hsymbol
  · have htidy : Tidy plan.ownSymbols := @ownNames_tidied plan h .symbol nofun
    exact mem_uniqueStrings.mpr ⟨⟨symbol, List.mem_append_left _ hsymbol,
      htidy.trimmed symbol hsymbol⟩, htidy.nonempty symbol hsymbol⟩

omit [TextRuntime] in
theorem normalizes_of_uniqueRepositoryPaths {values paths : List String}
    (h : uniqueRepositoryPaths values = .ok paths) {value : String} (hv : value ∈ values) :
    ∃ path ∈ paths, normalizeRepositoryPath value = .ok path := by
  have hmem := @mem_uniqueRepositoryPaths values paths h
  unfold uniqueRepositoryPaths at h
  obtain ⟨normalized, hm, -⟩ := except_bind_ok h
  obtain ⟨path, -, hn⟩ := forall₂_mem (mapM_ok hm) hv
  exact ⟨path, hmem.mpr ⟨value, hv, hn⟩, hn⟩

omit [TextRuntime] in
theorem mem_arbitrationFiles_canonical {plan : AgentPlan} {files : List String}
    (hc : Canonical plan.expectedFiles) (h : arbitrationFiles plan = .ok files) {file : String}
    (hf : file ∈ plan.expectedFiles) : file ∈ files := by
  unfold arbitrationFiles at h
  split at h
  · obtain rfl := Except.ok.inj h
    exact hf
  · obtain ⟨again, hagain, hn⟩ := normalizes_of_uniqueRepositoryPaths h
      (List.mem_append_left _ (List.mem_append_left _ hf))
    obtain rfl := hc.normal file hf again hn
    exact hagain

/-! ## Overlaps that name a resource -/

theorem overlap_spells {first second : List String} {name : String} (h : Tidy first) :
    (∃ resource ∈ overlap first second, toLowerCase resource = toLowerCase name) ↔
      (∃ own ∈ first, toLowerCase own = toLowerCase name) ∧
        ∃ own ∈ second, toLowerCase own = toLowerCase name := by
  constructor
  · rintro ⟨resource, hresource, hlower⟩
    obtain ⟨raw, hraw, hin, rfl, -⟩ := mem_overlap.mp hresource
    rw [h.trimmed raw hraw] at hlower
    obtain ⟨own, hown, hsame⟩ := List.mem_map.mp hin
    exact ⟨⟨raw, hraw, hlower⟩, own, hown, hsame.trans hlower⟩
  · rintro ⟨⟨raw, hraw, hlower⟩, own, hown, hsame⟩
    have htrim := h.trimmed raw hraw
    have hne := h.nonempty raw hraw
    exact ⟨raw, mem_overlap.mpr
      ⟨raw, hraw, List.mem_map.mpr ⟨own, hown, hsame.trans hlower.symm⟩, htrim, hne⟩, hlower⟩

omit [TextRuntime] in
theorem trim_service {name : String} (htrim : trim name = name) (hne : name ≠ "") :
    trim ("service:" ++ name) = "service:" ++ name := by
  have hrev : name.toList.reverse.dropWhile isSpace = name.toList.reverse := by
    have hname : name.toList = trimChars name.toList := by
      conv_lhs => rw [← htrim, trim, String.toList_ofList]
    rw [hname, trimChars, List.reverse_reverse, List.dropWhile_idempotent]
  have hnonempty : name.toList.reverse ≠ [] := by
    rw [Ne, List.reverse_eq_nil_iff]
    exact fun h => hne (String.toList_eq_nil_iff.mp h)
  have hall : (name.toList.reverse.dropWhile isSpace).isEmpty = false := by
    rw [hrev, List.isEmpty_eq_false_iff]
    exact hnonempty
  rw [trim, String.toList_append, trimChars]
  show String.ofList ((("service:".toList ++ name.toList).reverse.dropWhile isSpace).reverse) = _
  rw [List.reverse_append, List.dropWhile_append, hall, if_neg (by decide), hrev,
    ← List.reverse_append, List.reverse_reverse, ← String.toList_append, String.ofList_toList]

theorem dependencyImpact_service {left right : AgentPlan} {name : String}
    (hl : Tidy (ownServices left)) (h : ∃ own ∈ ownServices left,
      toLowerCase own = toLowerCase name) (h' : ∃ own ∈ ownServices right,
      toLowerCase own = toLowerCase name) :
    ∃ resource ∈ dependencyImpact left right, Spells .service name resource := by
  obtain ⟨service, hservice, hlower⟩ := (overlap_spells hl).mpr ⟨h, h'⟩
  obtain ⟨raw, hraw, -, rfl, hne⟩ := mem_overlap.mp hservice
  rw [hl.trimmed raw hraw] at hlower hservice hne
  refine ⟨"service:" ++ raw, mem_uniqueStrings.mpr
    ⟨⟨"service:" ++ raw, ?_, trim_service (hl.trimmed raw hraw) hne⟩, ?_⟩, raw, hlower, rfl⟩
  · exact List.mem_append_right _ (List.mem_map.mpr ⟨raw, hservice, rfl⟩)
  · intro hempty
    have := congrArg String.toList hempty
    rw [String.toList_append] at this
    cases this

/-! ## Where lines are compared -/

/-- What the two plans occupy of the file, where that is known, meets. -/
def LinesMeet (occupancy : Option FileOccupancy) (first second : AgentPlan) (name : String) :
    Prop :=
  ∀ lines, occupancy = some lines → ∀ file, Spells .file name file → ∀ left right,
    lines (completed first) file = .ok left → lines (completed second) file = .ok right →
      meet left right = true

omit [TextRuntime] in
theorem mem_meetingFiles {occupancy : FileOccupancy} {files shared : List String}
    (h : meetingFiles occupancy first second files = .ok shared) {file : String} (hf : file ∈ files)
    (hmeet : ∀ left right, occupancy first file = .ok left → occupancy second file = .ok right →
      meet left right = true) : file ∈ shared := by
  induction files generalizing shared with
  | nil => cases hf
  | cons other files ih =>
    unfold meetingFiles at h
    obtain ⟨left, hl, h⟩ := except_bind_ok h
    obtain ⟨right, hr, h⟩ := except_bind_ok h
    obtain ⟨rest, hrest, h⟩ := except_bind_ok h
    obtain rfl := Except.ok.inj h
    rcases List.mem_cons.mp hf with rfl | hf
    · rw [if_pos (hmeet left right hl hr)]
      exact List.mem_cons_self
    · split
      · exact List.mem_cons_of_mem _ (ih hrest hf)
      · exact ih hrest hf

theorem overlappingFiles_spells {files : List String} {name : String} (hblank : BlanksAgree)
    (h : overlappingFiles (completed first) (completed second) occupancy = .ok files)
    (hfirst : ∀ left, arbitrationFiles first = .ok left →
      ∃ own ∈ left, toLowerCase own = toLowerCase name)
    (hsecond : ∀ right, arbitrationFiles second = .ok right →
      ∃ own ∈ right, toLowerCase own = toLowerCase name)
    (hmeet : LinesMeet occupancy first second name) (hname : trim name ≠ "") :
    ∃ file ∈ files, Spells .file name file := by
  unfold overlappingFiles at h
  obtain ⟨left, hleft, h⟩ := except_bind_ok h
  obtain ⟨right, hright, h⟩ := except_bind_ok h
  obtain ⟨own, hown, hlower⟩ := hfirst left hleft
  obtain ⟨own', hown', hlower'⟩ := hsecond right hright
  have hkept : trim own ≠ "" := fun hempty => hname (hblank own name hlower hempty)
  have hshared : trim own ∈ overlap left right :=
    mem_overlap.mpr ⟨own, hown, List.mem_map.mpr ⟨own', hown', hlower'.trans hlower.symm⟩, rfl,
      hkept⟩
  have hspells : Spells .file name (trim own) := ⟨own, hlower, rfl⟩
  cases occupancy with
  | none =>
    obtain rfl := Except.ok.inj h
    exact ⟨_, hshared, hspells⟩
  | some lines => exact ⟨_, mem_meetingFiles h hshared (hmeet lines rfl _ hspells), hspells⟩

/-! ## What a merged plan is read as -/

def readNames (plan : AgentPlan) : ResourceType → List String
  | .symbol => arbitrationSymbols plan
  | type => ownNames plan type

theorem ownNames_subset {plan : AgentPlan} (h : Asserted plan) (type : ResourceType) :
    ownNames plan type ⊆ readNames plan type := by
  cases type with
  | symbol => exact ownSymbols_subset h
  | _ => exact List.Subset.refl _

theorem readNames_tidied {plan : AgentPlan} (h : Asserted plan) {type : ResourceType}
    (hne : type ≠ .file) : Tidy (readNames plan type) := by
  cases type with
  | file => exact absurd rfl hne
  | symbol => exact arbitrationSymbols_tidied h
  | api => exact ownNames_tidied h hne
  | schema => exact ownNames_tidied h hne
  | configuration => exact ownNames_tidied h hne
  | test => exact ownNames_tidied h hne
  | service => exact ownNames_tidied h hne

theorem scored_iff {left right : AgentPlan} (h : Asserted left) (files : List String)
    {type : ResourceType} (hfile : type ≠ .file) (hservice : type ≠ .service) {name : String} :
    (∃ resource ∈ scored left right files type, Spells type name resource) ↔
      (∃ own ∈ readNames left type, toLowerCase own = toLowerCase name) ∧
        ∃ own ∈ readNames right type, toLowerCase own = toLowerCase name := by
  have hoverlap := @overlap_spells _ _ (readNames right type) name (readNames_tidied h hfile)
  cases type with
  | file => exact absurd rfl hfile
  | service => exact absurd rfl hservice
  | _ => exact hoverlap

/-- An added resource is among what is scored: a path that is not blank; a symbol, unless the
declared record names no symbols; anything else where there is no declared record, or the
record names it already. -/
def Visible (plan : AgentPlan) (type : ResourceType) (name : String) : Prop :=
  match type with
  | .file => trim name ≠ ""
  | .symbol => plan.declared.bind PlanDeclarations.symbols ≠ some []
  | type => plan.declared = none ∨
    ∃ own ∈ uniqueStrings (ownNames plan type), toLowerCase own = toLowerCase name

omit [TextRuntime] in
theorem asDeclared_widen {plan : AgentPlan} (request : ScopeChangeRequest) (files : List String)
    {key : PlanDeclarations → Option (List String)} (values expected : Option (List String))
    (hkey : ∀ (declared : PlanDeclarations) symbols, key { declared with symbols } = key declared)
    (h : plan.declared ≠ none) :
    asDeclared (plan.widen request files) key values = asDeclared plan key expected := by
  obtain ⟨declared, hdeclared⟩ := Option.ne_none_iff_exists'.mp h
  have hmap : (plan.widen request files).declared =
      plan.declared.map (PlanDeclarations.widen request) := rfl
  rw [asDeclared_some (by rw [hmap, hdeclared]; rfl), asDeclared_some hdeclared]
  unfold PlanDeclarations.widen
  split
  · rfl
  · rfl
  · rw [hkey]

omit [TextRuntime] in
/-- A widened plan's own lists: what it declared, or where it has no declared record what is
expected of it. -/
theorem ownNames_widen (plan : AgentPlan) (request : ScopeChangeRequest) (files : List String)
    {type : ResourceType} (hfile : type ≠ .file) (hsymbol : type ≠ .symbol) :
    (plan.declared = none → ownNames (plan.widen request files) type =
      uniqueStrings (plan.names .expected type ++ request.names type)) ∧
    (plan.declared ≠ none →
      ownNames (plan.widen request files) type = ownNames plan type) := by
  have hnone (h : plan.declared = none) : (plan.widen request files).declared = none := by
    show plan.declared.map _ = none
    rw [h]
    rfl
  cases type with
  | file => exact absurd rfl hfile
  | symbol => exact absurd rfl hsymbol
  | api => exact ⟨fun h => asDeclared_none (hnone h) _ _,
      asDeclared_widen request files _ _ fun _ _ => rfl⟩
  | schema => exact ⟨fun h => asDeclared_none (hnone h) _ _,
      asDeclared_widen request files _ _ fun _ _ => rfl⟩
  | configuration => exact ⟨fun h => asDeclared_none (hnone h) _ _,
      asDeclared_widen request files _ _ fun _ _ => rfl⟩
  | test => exact ⟨fun h => asDeclared_none (hnone h) _ _,
      asDeclared_widen request files _ _ fun _ _ => rfl⟩
  | service => exact ⟨fun h => asDeclared_none (hnone h) _ _,
      asDeclared_widen request files _ _ fun _ _ => rfl⟩

/-- A plan as it comes out of a merge, with whatever grounding it is then given. -/
structure Merged (plan : AgentPlan) (request : ScopeChangeRequest) (revised : AgentPlan) :
    Prop where
  asserted : Asserted revised
  own : ∃ files, ∀ type, type ≠ .file →
    ownNames revised type = uniqueStrings (ownNames (plan.widen request files) type)
  dependencies : ownDependencies revised = uniqueStrings (ownDependencies plan)
  files : ∀ value ∈ request.additionalFiles, ∀ name, normalizeRepositoryPath value = .ok name →
    name ∈ revised.expectedFiles

omit [TextRuntime] in
theorem merged_of_mergePlanScope {plan widened : AgentPlan} {request : ScopeChangeRequest}
    (h : mergePlanScope plan request = .ok widened) (grounding : Option PlanGrounding) :
    Merged plan request { widened with grounding } := by
  have hnames := @mem_names_mergePlanScope plan widened request h .file
  unfold mergePlanScope at h
  split at h
  · cases h
  rename_i files hfiles
  have hasserted := assertAgentPlan_asserted h
  obtain ⟨-, files', -, rfl⟩ := assertAgentPlan_ok h
  refine ⟨⟨hasserted.schema, hasserted.files, ?_⟩, ⟨files, fun type hne => ?_⟩, ?_, ?_⟩
  · exact congrArg (fun plan : AgentPlan => { plan with grounding }) hasserted.tidy
  · rw [← ownNames_tidy _ hne]
    cases type with
    | file => exact absurd rfl hne
    | _ => rfl
  · have hwiden : ownDependencies (plan.widen request files) = ownDependencies plan := by
      by_cases hdeclared : plan.declared = none
      · refine (asDeclared_none ?_ _ _).trans (asDeclared_none hdeclared _ _).symm
        show plan.declared.map _ = none
        rw [hdeclared]
        rfl
      · exact asDeclared_widen request files _ _ (fun _ _ => rfl) hdeclared
    rw [← hwiden, ← ownDependencies_tidy]
    rfl
  · intro value hvalue name hname
    exact hnames.mpr ⟨value, List.mem_append_right _ hvalue, hname⟩

section
variable {plan revised : AgentPlan} {request : ScopeChangeRequest}

variable {type : ResourceType} {value name : String}

omit [TextRuntime] in
theorem mem_uniqueStrings_kept {values : List String} (hne : type ≠ .file) (hvalue : value ∈ values)
    (hkept : KeptAs type value name) : name ∈ uniqueStrings values := by
  obtain ⟨htrim, hempty⟩ := (keptAs_of_ne_file hne).mp hkept
  exact mem_uniqueStrings.mpr ⟨⟨value, hvalue, htrim⟩, hempty⟩

/-- **An added resource is scored exactly when it is visible.** -/
theorem readNames_merged (hm : Merged plan request revised) (hne : type ≠ .file)
    (hvalue : value ∈ request.names type) (hkept : KeptAs type value name) :
    (∃ own ∈ readNames revised type, toLowerCase own = toLowerCase name) ↔
      Visible plan type name := by
  obtain ⟨files, hown⟩ := hm.own
  have hown := hown type hne
  have hother (hsymbol : type ≠ .symbol) :
      (∃ own ∈ ownNames revised type, toLowerCase own = toLowerCase name) ↔
        plan.declared = none ∨
          ∃ own ∈ uniqueStrings (ownNames plan type), toLowerCase own = toLowerCase name := by
    obtain ⟨hnone, hsome⟩ := ownNames_widen plan request files hne hsymbol
    rw [hown]
    by_cases hdeclared : plan.declared = none
    · refine ⟨fun _ => .inl hdeclared, fun _ => ⟨name, ?_, rfl⟩⟩
      rw [hnone hdeclared, uniqueStrings_idem]
      exact mem_uniqueStrings_kept hne (List.mem_append_right _ hvalue) hkept
    · rw [hsome hdeclared]
      exact ⟨.inr, fun h => h.resolve_left hdeclared⟩
  cases type with
  | file => exact absurd rfl hne
  | api => exact hother (by decide)
  | schema => exact hother (by decide)
  | configuration => exact hother (by decide)
  | test => exact hother (by decide)
  | service => exact hother (by decide)
  | symbol =>
    have hadded (symbols : List String)
        (hsymbols : revised.ownSymbols = uniqueStrings (uniqueStrings
          (symbols ++ request.additionalSymbols))) :
        ∃ own ∈ arbitrationSymbols revised, toLowerCase own = toLowerCase name := by
      refine ⟨name, ownSymbols_subset hm.asserted ?_, rfl⟩
      rw [hsymbols, uniqueStrings_idem]
      exact mem_uniqueStrings_kept hne (List.mem_append_right _ hvalue) hkept
    have hown : revised.ownSymbols =
        uniqueStrings (((plan.declared.map (PlanDeclarations.widen request)).bind
          PlanDeclarations.symbols).getD
            (uniqueStrings (plan.expectedSymbols ++ request.additionalSymbols))) := hown
    show (∃ own ∈ arbitrationSymbols revised, _) ↔
      plan.declared.bind PlanDeclarations.symbols ≠ some []
    cases hdeclared : plan.declared with
    | none =>
      rw [hdeclared] at hown
      exact ⟨fun _ => nofun, fun _ => hadded _ hown⟩
    | some declared =>
      rw [hdeclared] at hown
      show _ ↔ declared.symbols ≠ some []
      cases hsymbols : declared.symbols with
      | none =>
        simp only [Option.map_some, Option.bind_some, PlanDeclarations.widen, hsymbols] at hown
        exact ⟨fun _ => nofun, fun _ => hadded _ hown⟩
      | some symbols =>
        cases symbols with
        | nil =>
          simp only [Option.map_some, Option.bind_some, PlanDeclarations.widen, hsymbols] at hown
          refine ⟨?_, fun h => absurd rfl h⟩
          rintro ⟨own, hmem, -⟩
          have hnone : arbitrationSymbols revised = [] := by
            unfold arbitrationSymbols
            rw [show revised.ownSymbols = [] from hown]
            cases revised.grounding with
            | none => rfl
            | some grounding =>
              show uniqueStrings ([] ++ (grounding.symbolReferents.filter _).map _) = []
              rw [List.filter_eq_nil_iff.mpr (fun _ _ => by simp)]
              rfl
          rw [hnone] at hmem
          cases hmem
        | cons symbol symbols =>
          simp only [Option.map_some, Option.bind_some, PlanDeclarations.widen, hsymbols] at hown
          exact ⟨fun _ => nofun, fun _ => hadded _ hown⟩

end

/-! ## Weighing as declared -/

/-- Against every plan that declares it too the resource shows, whichever of the two comes
first; of a file that is said where the two meet in it. -/
def Weighs [Printer] (self : ConflictDetector) (revised : AgentPlan) (type : ResourceType)
    (name : String) : Prop :=
  ∀ other, Asserted other → Declares other type name →
    ∀ (occupancy : Option FileOccupancy) (intentAssessment : Option IntentConflictAssessment),
      (type = .file →
        LinesMeet occupancy revised other name ∧ LinesMeet occupancy other revised name) →
      ∀ found, self.assess revised other occupancy intentAssessment = .ok found ∨
        self.assess other revised occupancy intentAssessment = .ok found → Shows found type name

/-- The plan depends on the service in words that any plan that offers it offers. -/
def DependsByName (plan : AgentPlan) (type : ResourceType) (name : String) : Prop :=
  type = .service ∧ ∀ raw, trim raw = raw → raw ≠ "" → toLowerCase raw = toLowerCase name →
    ∃ dependency ∈ uniqueStrings (ownDependencies plan), Spells .service name dependency ∧
      (toLowerCase dependency = toLowerCase raw ∨
        toLowerCase dependency = toLowerCase ("service:" ++ raw))

variable {left right : AgentPlan} {type : ResourceType} {self : ConflictDetector}
  {plan revised : AgentPlan} {request : ScopeChangeRequest} {value name : String}

theorem scored_spells (hblank : BlanksAgree) (hl : Asserted left) {occupancy : Option FileOccupancy}
    {files : List String}
    (hfiles : overlappingFiles (completed left) (completed right) occupancy = .ok files)
    {name : String} (hleft : ∃ own ∈ readNames left type, toLowerCase own = toLowerCase name)
    (hright : ∃ own ∈ readNames right type, toLowerCase own = toLowerCase name)
    (hr : Asserted right) (hmeet : type = .file → LinesMeet occupancy left right name)
    (hname : type = .file → trim name ≠ "") :
    ∃ resource ∈ scored left right files type, Spells type name resource := by
  by_cases hfile : type = .file
  · subst hfile
    obtain ⟨own, hown, hlower⟩ := hleft
    obtain ⟨own', hown', hlower'⟩ := hright
    exact overlappingFiles_spells hblank hfiles
      (fun _ h => ⟨own, mem_arbitrationFiles_canonical hl.files h hown, hlower⟩)
      (fun _ h => ⟨own', mem_arbitrationFiles_canonical hr.files h hown', hlower'⟩)
      (hmeet rfl) (hname rfl)
  by_cases hservice : type = .service
  · subst hservice
    exact dependencyImpact_service (ownNames_tidied hl hfile) hleft hright
  · exact (scored_iff hl files hfile hservice).mpr ⟨hleft, hright⟩

theorem mem_dependencyImpact {value : String} (hl : Tidy (ownDependencies left))
    (h : value ∈ ownDependencies left) (hoffers : toLowerCase value ∈ resourceNames right) :
    value ∈ dependencyImpact left right ∧ value ∈ dependencyImpact right left := by
  have htrim := hl.trimmed value h
  have hne := hl.nonempty value h
  have hoffered : value ∈ (ownDependencies left).filter fun value =>
      toLowerCase value ∈ resourceNames right :=
    List.mem_filter.mpr ⟨h, decide_eq_true hoffers⟩
  exact ⟨mem_uniqueStrings.mpr ⟨⟨value, List.mem_append_left _ (List.mem_append_left _ hoffered),
      htrim⟩, hne⟩,
    mem_uniqueStrings.mpr ⟨⟨value, List.mem_append_left _ (List.mem_append_right _ hoffered),
      htrim⟩, hne⟩⟩

theorem resourceNames_service {plan : AgentPlan} {raw : String} (h : raw ∈ ownServices plan) :
    toLowerCase raw ∈ resourceNames plan ∧ toLowerCase ("service:" ++ raw) ∈ resourceNames plan := by
  have hnamed : raw ∈ (ownServices plan).flatMap (fun value => [value, "service:" ++ value]) ∧
      "service:" ++ raw ∈
        (ownServices plan).flatMap (fun value => [value, "service:" ++ value]) :=
    ⟨List.mem_flatMap.mpr ⟨raw, h, .head _⟩, List.mem_flatMap.mpr ⟨raw, h, .tail _ (.head _)⟩⟩
  exact ⟨List.mem_map.mpr ⟨_, List.mem_append_right _ hnamed.1, rfl⟩,
    List.mem_map.mpr ⟨_, List.mem_append_right _ hnamed.2, rfl⟩⟩

/-- **What is visible, or depended on by name, weighs.** -/
theorem weighs_of_visible [Printer] (hblank : BlanksAgree) (hm : Merged plan request revised)
    (hvalue : value ∈ request.names type) (hkept : KeptAs type value name)
    (hw : 0 < weightOf self.options type)
    (h : Visible plan type name ∨ DependsByName plan type name) :
    Weighs self revised type name := by
  intro other hother hdeclares occupancy intentAssessment hlines found hfound
  obtain ⟨own, hown, hlower⟩ := hdeclares
  have hread : ∃ own ∈ readNames other type, toLowerCase own = toLowerCase name :=
    ⟨own, ownNames_subset hother type hown, hlower⟩
  have hassess {first second : AgentPlan}
      (h : self.assess first second occupancy intentAssessment = .ok found)
      (hspells : ∀ files,
        overlappingFiles (completed first) (completed second) occupancy = .ok files →
          ∃ resource ∈ scored first second files type, Spells type name resource) :
      Shows found type name := by
    obtain ⟨files, hfiles, -⟩ := except_bind_ok h
    exact (shows_iff hfiles h type name).mpr ⟨hw, hspells files hfiles⟩
  rcases h with hvisible | ⟨rfl, hdepends⟩
  · have hadded : ∃ own ∈ readNames revised type, toLowerCase own = toLowerCase name := by
      by_cases hfile : type = .file
      · subst hfile
        exact ⟨name, hm.files value hvalue name hkept, rfl⟩
      · exact (readNames_merged hm hfile hvalue hkept).mpr hvisible
    have hname : type = .file → trim name ≠ "" := by
      rintro rfl
      exact hvisible
    rcases hfound with hfound | hfound
    · exact hassess hfound fun files hfiles => scored_spells hblank hm.asserted hfiles hadded hread
        hother (fun h => (hlines h).1) hname
    · exact hassess hfound fun files hfiles => scored_spells hblank hother hfiles hread hadded
        hm.asserted (fun h => (hlines h).2) hname
  · have htidy := @ownNames_tidied other hother .service nofun
    obtain ⟨dependency, hdependency, hspells, hoffered⟩ := hdepends own
      (htidy.trimmed own hown) (htidy.nonempty own hown) hlower
    rw [← hm.dependencies] at hdependency
    obtain ⟨hname, hkind⟩ := resourceNames_service hown
    have hoffers : toLowerCase dependency ∈ resourceNames other := by
      rcases hoffered with heq | heq
      · rw [heq]
        exact hname
      · rw [heq]
        exact hkind
    obtain ⟨hfirst, hsecond⟩ :=
      mem_dependencyImpact (ownDependencies_tidied hm.asserted) hdependency hoffers
    rcases hfound with hfound | hfound
    · exact hassess hfound fun _ _ => ⟨dependency, hfirst, hspells⟩
    · exact hassess hfound fun _ _ => ⟨dependency, hsecond, hspells⟩

/-- A plan that declares one resource and nothing else. -/
def declaring (type : ResourceType) (name : String) : AgentPlan where
  taskId := "declaring"
  objective := "declare"
  expectedFiles := if type = .file then [name] else []
  expectedSymbols := if type = .symbol then [name] else []
  expectedApis := some (if type = .api then [name] else [])
  expectedSchemas := some (if type = .schema then [name] else [])
  expectedConfigKeys := some (if type = .configuration then [name] else [])
  expectedTests := some (if type = .test then [name] else [])
  expectedServices := some (if type = .service then [name] else [])

omit [TextRuntime] in
theorem ownNames_declaring (type : ResourceType) (name : String) :
    ownNames (declaring type name) type = [name] := by
  cases type <;> rfl

omit [TextRuntime] in
theorem declaring_asserted {name : String} (hfile : type = .file → Canonical [name])
    (hother : type ≠ .file → trim name = name ∧ name ≠ "") : Asserted (declaring type name) := by
  have hnone : Canonical [] := ⟨by simp, by simp, by simp⟩
  have hsingle (h : type ≠ .file) : uniqueStrings [name] = [name] := by
    obtain ⟨htrim, hne⟩ := hother h
    simp [uniqueStrings, htrim, hne, unique, sortStrings]
  have hschema : matchesSchema (declaring type name) = true :=
    show matchesSchema (declaring .file "") = true by decide
  cases type with
  | file => exact ⟨hschema, hfile rfl, rfl⟩
  | _ =>
    refine ⟨hschema, hnone, ?_⟩
    have h := hsingle (by decide)
    simp only [AgentPlan.tidy, declaring, reduceCtorEq, if_true, if_false, Option.map_some,
      Option.map_none, h]
    rfl

theorem spells_of_weighs [Printer] {revised : AgentPlan} {files : List String}
    (hfiles : arbitrationFiles revised = .ok files) {name raw : String}
    (h : Weighs self revised type name) (hasserted : Asserted (declaring type raw))
    (hlower : toLowerCase raw = toLowerCase name) :
    0 < weightOf self.options type ∧ ∃ resource ∈ scored revised (declaring type raw)
      (overlap files (declaring type raw).expectedFiles) type, Spells type name resource := by
  have hother : arbitrationFiles (declaring type raw) = .ok (declaring type raw).expectedFiles :=
    rfl
  obtain ⟨found, hfound⟩ := assess_isOk self hfiles hother
  have hshows := h _ hasserted ⟨raw, by rw [ownNames_declaring]; exact .head _, hlower⟩ none none
    (fun _ => ⟨nofun, nofun⟩) found (.inl hfound)
  refine (shows_iff ?_ hfound type name).mp hshows
  unfold overlappingFiles
  rw [show arbitrationFiles (completed revised) = .ok files from hfiles]
  rfl

/-- **What weighs is visible, or depended on by name.** -/
theorem visible_of_weighs [Printer] (hblank : BlanksAgree) (hm : Merged plan request revised)
    {files : List String} (hfiles : arbitrationFiles revised = .ok files)
    (hvalue : value ∈ request.names type) (hkept : KeptAs type value name)
    (h : Weighs self revised type name) :
    0 < weightOf self.options type ∧ (Visible plan type name ∨ DependsByName plan type name) := by
  by_cases hfile : type = .file
  · subst hfile
    have hcanonical : Canonical [name] :=
      ⟨fun path hpath => hm.asserted.files.normal path (by
        obtain rfl := List.mem_singleton.mp hpath
        exact hm.files value hvalue path hkept), by simp, by simp⟩
    obtain ⟨hw, resource, hresource, path, hlower, rfl⟩ :=
      spells_of_weighs hfiles h (declaring_asserted (fun _ => hcanonical) nofun) rfl
    refine ⟨hw, .inl fun hempty => ?_⟩
    obtain ⟨-, -, -, -, hne⟩ := mem_overlap.mp hresource
    exact hne (hblank name path hlower.symm hempty)
  obtain ⟨htrim, hempty⟩ := (keptAs_of_ne_file hfile).mp hkept
  have htrim : trim name = name := by rw [← htrim, trim_idem]
  have hlisted (raw : String) (hraw : trim raw = raw) (hne : raw ≠ "")
      (hlower : toLowerCase raw = toLowerCase name) :=
    spells_of_weighs hfiles h
      (declaring_asserted (fun h => absurd h hfile) (fun _ => ⟨hraw, hne⟩)) hlower
  obtain ⟨hw, hname⟩ := hlisted name htrim hempty rfl
  refine ⟨hw, ?_⟩
  by_cases hservice : type = .service
  · subst hservice
    by_cases hvisible : Visible plan .service name
    · exact .inl hvisible
    refine .inr ⟨rfl, fun raw hraw hne hlower => ?_⟩
    obtain ⟨-, resource, hresource, hspells⟩ := hlisted raw hraw hne hlower
    obtain ⟨⟨listed, hmem, htrimmed⟩, -⟩ := mem_uniqueStrings.mp hresource
    rcases List.mem_append.mp hmem with hmem | hmem
    · rcases List.mem_append.mp hmem with hmem | hmem
      · obtain ⟨hdependency, hoffered⟩ := List.mem_filter.mp hmem
        rw [(ownDependencies_tidied hm.asserted).trimmed listed hdependency] at htrimmed
        subst htrimmed
        refine ⟨listed, hm.dependencies ▸ hdependency, hspells, ?_⟩
        have hoffered := of_decide_eq_true hoffered
        simpa [resourceNames, declaring, ownApis, ownSchemas, ownServices, asDeclared] using
          hoffered
      · cases (List.mem_filter.mp hmem).1
    · obtain ⟨service, hservice, rfl⟩ := List.mem_map.mp hmem
      obtain ⟨own, hown, hin, -, -⟩ := mem_overlap.mp hservice
      obtain ⟨other, hother, hsame⟩ := List.mem_map.mp hin
      obtain rfl : other = raw := List.mem_singleton.mp hother
      exact absurd ((readNames_merged hm hfile hvalue hkept).mp
        ⟨own, hown, hsame.symm.trans hlower⟩) hvisible
  · exact .inl ((readNames_merged hm hfile hvalue hkept).mp
      ((scored_iff hm.asserted _ hfile hservice).mp hname).1)

/-- **When what a request adds weighs as declared**: its kind weighs something, and it is
visible, or a service the plan depends on by name. -/
theorem expansion_weighs_iff [Printer] (hblank : BlanksAgree) {plan widened : AgentPlan}
    (h : mergePlanScope plan request = .ok widened) {grounding : Option PlanGrounding}
    {files : List String} (hfiles : arbitrationFiles { widened with grounding } = .ok files)
    (hvalue : value ∈ request.names type) (hkept : KeptAs type value name) :
    Weighs self { widened with grounding } type name ↔ 0 < weightOf self.options type ∧
      (Visible plan type name ∨ DependsByName plan type name) := by
  have hm := merged_of_mergePlanScope h grounding
  exact ⟨visible_of_weighs hblank hm hfiles hvalue hkept,
    fun hw => weighs_of_visible hblank hm hvalue hkept hw.1 hw.2⟩

/-- **An added resource weighs as declared** if it is visible; a file or a symbol only then. -/
theorem expansion_weighs [Printer] (hblank : BlanksAgree) {self : ConflictDetector}
    {plan widened : AgentPlan} {request : ScopeChangeRequest}
    (h : mergePlanScope plan request = .ok widened) (grounding : Option PlanGrounding)
    {type : ResourceType} {value name : String} (hvalue : value ∈ request.names type)
    (hkept : KeptAs type value name) (hw : 0 < weightOf self.options type) :
    (Visible plan type name → Weighs self { widened with grounding } type name) ∧
    (type = .file ∨ type = .symbol → ∀ files,
      arbitrationFiles { widened with grounding } = .ok files →
        Weighs self { widened with grounding } type name → Visible plan type name) := by
  have hm := merged_of_mergePlanScope h grounding
  refine ⟨fun hvisible => weighs_of_visible hblank hm hvalue hkept hw (.inl hvisible),
    fun htype files hfiles hweighs => ?_⟩
  rcases ((expansion_weighs_iff hblank h hfiles hvalue hkept).mp hweighs).2 with
    hvisible | ⟨rfl, -⟩
  · exact hvisible
  · rcases htype with htype | htype <;> cases htype

end

section
attribute [local instance] asciiRuntime wholePrinter

/-- A plan that takes a file whole: its declared record names no symbols. -/
def totals : AgentPlan where
  taskId := "task_b"
  objective := "Audit the totals"
  expectedFiles := ["src/pricing/total.js"]
  expectedSymbols := []
  declared := some { symbols := some [] }

def auditNote : ScopeChangeRequest where
  id := "scope_1"
  taskId := "task_b"
  additionalFiles := ["src/audit/note.js"]
  additionalSymbols := ["auditNote"]
  reason := "the audit note belongs beside the total"

def auditedTotals : AgentPlan :=
  { totals with
    expectedFiles := ["src/audit/note.js", "src/pricing/total.js"]
    expectedSymbols := ["auditNote"]
    expectedApis := some []
    expectedSchemas := some []
    expectedConfigKeys := some []
    expectedTests := some []
    expectedServices := some [] }

theorem mergePlanScope_totals : mergePlanScope totals auditNote = .ok auditedTotals := by
  decide

/-- The file asked for weighs as declared. -/
theorem expansion_weighs_file :
    Weighs ConflictDetector.default auditedTotals .file "src/audit/note.js" :=
  (@expansion_weighs _ _ blanksAgree_ascii ConflictDetector.default _ _ _ mergePlanScope_totals
    none .file "src/audit/note.js" "src/audit/note.js" (.head _)
    (show normalizeRepositoryPath "src/audit/note.js" = .ok "src/audit/note.js" by decide)
    (by decide)).1 (show trim "src/audit/note.js" ≠ "" by decide)

/-- The symbol asked for does not: the declared record stays as it is. -/
theorem expansion_unseen : ¬∀ plan request widened, mergePlanScope plan request = .ok widened →
    ∀ type, ∀ value ∈ request.names type, ∀ name, KeptAs type value name →
      Weighs ConflictDetector.default widened type name := by
  intro h
  have hkept : KeptAs .symbol "auditNote" "auditNote" :=
    show trim "auditNote" = "auditNote" ∧ "auditNote" ≠ "" by decide
  have hweighs := h _ _ _ mergePlanScope_totals .symbol "auditNote" (.head _) "auditNote" hkept
  have hvisible := (visible_of_weighs blanksAgree_ascii
    (merged_of_mergePlanScope mergePlanScope_totals none) rfl (.head _) hkept hweighs).2
  rcases hvisible with hvisible | ⟨hservice, -⟩
  · exact hvisible rfl
  · cases hservice

end

end AgenticGit.Coordinator
