import AgenticGit.Shared.PlanScope
import AgenticGit.Coordinator.ConflictDetector

/- Plans that claim less. Two plans without structural evidence between them have none
   after either of them is narrowed.

   What is proved:
     1. `structural_iff` — an assessment has structural evidence exactly when one of the
        lists it scores is not empty and weighs something.
     2. `Unopposed.symm` — it does not matter which of two plans comes first.
     3. `Unopposed.mono` — **plans that are apart stay apart when they are narrowed**.
     4. `unopposed_reducePlanScope` — a reduction narrows, so they stay apart when
        admission takes resources from them. -/
namespace AgenticGit.Coordinator
open AgenticGit.Runtime AgenticGit.Shared

section
variable [TextRuntime]

/-! ## Claiming less -/

/-- The second plan claims nothing that the first does not, in anything arbitration
reads. -/
structure Narrows (plan granted : AgentPlan) : Prop where
  taskId : granted.taskId = plan.taskId
  files : ∀ all kept, arbitrationFiles plan = .ok all → arbitrationFiles granted = .ok kept →
    kept ⊆ all
  symbols : arbitrationSymbols granted ⊆ arbitrationSymbols plan
  dependencies : ownDependencies granted ⊆ ownDependencies plan
  offers : resourceNames granted ⊆ resourceNames plan
  apis : ownApis granted ⊆ ownApis plan
  schemas : ownSchemas granted ⊆ ownSchemas plan
  services : ownServices granted ⊆ ownServices plan
  configKeys : ownConfigKeys granted ⊆ ownConfigKeys plan
  tests : ownTests granted ⊆ ownTests plan

theorem Narrows.refl (plan : AgentPlan) : Narrows plan plan where
  taskId := rfl
  files all kept hall hkept := by
    rw [hall] at hkept
    obtain rfl := Except.ok.inj hkept
    exact List.Subset.refl _
  symbols := List.Subset.refl _
  dependencies := List.Subset.refl _
  offers := List.Subset.refl _
  apis := List.Subset.refl _
  schemas := List.Subset.refl _
  services := List.Subset.refl _
  configKeys := List.Subset.refl _
  tests := List.Subset.refl _

/-! ## What a complete plan claims -/

omit [TextRuntime] in
theorem asDeclared_completed (plan : AgentPlan) (key : PlanDeclarations → Option (List String))
    (enriched : Option (List String)) :
    asDeclared (completed plan) key (some (enriched.getD [])) = asDeclared plan key enriched := by
  unfold asDeclared completed
  cases plan.declared with
  | none => rfl
  | some declared => rfl

omit [TextRuntime] in
@[simp] theorem ownApis_completed (plan : AgentPlan) : ownApis (completed plan) = ownApis plan :=
  asDeclared_completed plan _ _

omit [TextRuntime] in
@[simp] theorem ownSchemas_completed (plan : AgentPlan) :
    ownSchemas (completed plan) = ownSchemas plan :=
  asDeclared_completed plan _ _

omit [TextRuntime] in
@[simp] theorem ownServices_completed (plan : AgentPlan) :
    ownServices (completed plan) = ownServices plan :=
  asDeclared_completed plan _ _

omit [TextRuntime] in
@[simp] theorem ownConfigKeys_completed (plan : AgentPlan) :
    ownConfigKeys (completed plan) = ownConfigKeys plan :=
  asDeclared_completed plan _ _

omit [TextRuntime] in
@[simp] theorem ownTests_completed (plan : AgentPlan) :
    ownTests (completed plan) = ownTests plan :=
  asDeclared_completed plan _ _

omit [TextRuntime] in
@[simp] theorem ownDependencies_completed (plan : AgentPlan) :
    ownDependencies (completed plan) = ownDependencies plan := rfl

@[simp] theorem resourceNames_completed (plan : AgentPlan) :
    resourceNames (completed plan) = resourceNames plan := by
  unfold resourceNames
  rw [ownApis_completed, ownSchemas_completed, ownServices_completed]
  rfl

/-! ## Structural evidence -/

/-- The lists an assessment scores, and what each weighs. -/
def ConflictDetector.scoredLists (self : ConflictDetector) (left right : AgentPlan)
    (files : List String) : List (List String × ℚ) :=
  [(files, self.options.fileOverlapWeight),
    (overlap (arbitrationSymbols left) (arbitrationSymbols right),
      self.options.symbolOverlapWeight),
    (dependencyImpact left right, self.options.dependencyImpactWeight),
    (overlap (ownApis left) (ownApis right), self.options.apiOverlapWeight),
    (overlap (ownSchemas left) (ownSchemas right), self.options.schemaOverlapWeight),
    (overlap (ownConfigKeys left) (ownConfigKeys right), self.options.configurationOverlapWeight),
    (overlap (ownTests left) (ownTests right), self.options.testOverlapWeight)]

omit [TextRuntime] in
/-- Evidence that is scored by its length is structural when there is some and it weighs
something. -/
theorem exists_evidence_iff {kind : ConflictEvidenceKind} {resources : List String}
    {taskIds : String × String} {weight : ℚ} {explanation : Option String} :
    (∃ entry, evidence kind resources taskIds (resources.length * weight) false explanation =
        some entry ∧ entry.advisory = false ∧ 0 < entry.score) ↔ resources ≠ [] ∧ 0 < weight := by
  have hlength : (0 : ℚ) ≤ resources.length := Nat.cast_nonneg _
  constructor
  · rintro ⟨entry, hentry, -, -⟩
    unfold evidence at hentry
    rw [Option.ite_none_left_eq_some, not_or, not_le] at hentry
    obtain ⟨⟨hnonempty, hscore⟩, -⟩ := hentry
    refine ⟨fun hnil => hnonempty (by rw [hnil]; rfl), ?_⟩
    by_contra hweight
    exact absurd hscore (not_lt.mpr (mul_nonpos_of_nonneg_of_nonpos hlength (not_lt.mp hweight)))
  · rintro ⟨hnonempty, hweight⟩
    have hscore : (0 : ℚ) < resources.length * weight :=
      mul_pos (Nat.cast_pos.mpr (List.length_pos_of_ne_nil hnonempty)) hweight
    exact ⟨_, evidence_eq_some kind taskIds false explanation hnonempty hscore, rfl, hscore⟩

omit [TextRuntime] in
theorem evidence_kind {kind : ConflictEvidenceKind} {resources : List String}
    {taskIds : String × String} {score : ℚ} {advisory : Bool} {explanation : Option String}
    {entry : ConflictEvidence}
    (h : evidence kind resources taskIds score advisory explanation = some entry) :
    entry.kind = kind ∧ entry.advisory = advisory := by
  unfold evidence at h
  rw [Option.ite_none_left_eq_some] at h
  obtain rfl := Option.some.inj h.2
  exact ⟨rfl, rfl⟩

theorem items_kind {self : ConflictDetector} {left right : AgentPlan} {files : List String}
    {intent : Option IntentResult} {entry : ConflictEvidence}
    (hentry : entry ∈ self.items left right files intent) (hadvisory : entry.advisory = false) :
    entry.kind ≠ .intentIndependent := by
  obtain ⟨option, hoption, hsome⟩ := List.mem_filterMap.mp hentry
  obtain rfl : option = some entry := hsome
  have hscored : ∀ kind resources score advisory explanation, kind ≠ .intentIndependent →
      some entry = evidence kind resources (left.taskId, right.taskId) score advisory
        explanation → entry.kind ≠ .intentIndependent := by
    intro kind resources score advisory explanation hkind h
    rw [(evidence_kind h.symm).1]
    exact hkind
  simp only [List.mem_cons, List.not_mem_nil, or_false] at hoption
  rcases hoption with h | h | h | h | h | h | h | h | h
  · exact hscored _ _ _ _ _ (by decide) h
  · exact hscored _ _ _ _ _ (by decide) h
  · exact hscored _ _ _ _ _ (by decide) h
  · exact hscored _ _ _ _ _ (by decide) h
  · exact hscored _ _ _ _ _ (by decide) h
  · exact hscored _ _ _ _ _ (by decide) h
  · exact hscored _ _ _ _ _ (by decide) h
  · rw [eq_comm, Option.ite_none_left_eq_some] at h
    exact hscored _ _ _ _ _ (by decide) h.2.symm
  · rw [eq_comm, Option.ite_none_right_eq_some] at h
    obtain ⟨result, -, h⟩ := Option.bind_eq_some_iff.mp h.2
    rw [Option.ite_none_right_eq_some] at h
    obtain rfl := Option.some.inj h.2
    cases hadvisory

theorem exists_items_iff (self : ConflictDetector) (left right : AgentPlan) (files : List String)
    (intent : Option IntentResult) :
    (∃ entry ∈ self.items left right files intent, entry.advisory = false ∧ 0 < entry.score) ↔
      ∃ pair ∈ self.scoredLists left right files, pair.1 ≠ [] ∧ 0 < pair.2 := by
  constructor
  · rintro ⟨entry, hentry, hadvisory, hscore⟩
    obtain ⟨option, hoption, hsome⟩ := List.mem_filterMap.mp hentry
    obtain rfl : option = some entry := hsome
    have hscored : ∀ kind resources weight explanation,
        some entry = evidence kind resources (left.taskId, right.taskId)
          (resources.length * weight) false explanation → resources ≠ [] ∧ 0 < weight :=
      fun _ _ _ _ h => exists_evidence_iff.mp ⟨entry, h.symm, hadvisory, hscore⟩
    simp only [List.mem_cons, List.not_mem_nil, or_false] at hoption
    simp only [ConflictDetector.scoredLists, List.mem_cons, List.not_mem_nil, or_false,
      exists_eq_or_imp, exists_eq_left]
    rcases hoption with h | h | h | h | h | h | h | h | h
    · exact .inl (hscored _ _ _ _ h)
    · exact .inr (.inl (hscored _ _ _ _ h))
    · exact .inr (.inr (.inl (hscored _ _ _ _ h)))
    · exact .inr (.inr (.inr (.inl (hscored _ _ _ _ h))))
    · exact .inr (.inr (.inr (.inr (.inl (hscored _ _ _ _ h)))))
    · exact .inr (.inr (.inr (.inr (.inr (.inl (hscored _ _ _ _ h))))))
    · exact .inr (.inr (.inr (.inr (.inr (.inr (hscored _ _ _ _ h))))))
    · -- what an intent is worth is advisory
      rw [eq_comm, Option.ite_none_left_eq_some] at h
      rw [(evidence_kind h.2).2] at hadvisory
      cases hadvisory
    · rw [eq_comm, Option.ite_none_right_eq_some] at h
      obtain ⟨result, -, h⟩ := Option.bind_eq_some_iff.mp h.2
      rw [Option.ite_none_right_eq_some] at h
      obtain rfl := Option.some.inj h.2
      cases hadvisory
  · simp only [ConflictDetector.scoredLists, List.mem_cons, List.not_mem_nil, or_false,
      exists_eq_or_imp, exists_eq_left]
    rintro (h | h | h | h | h | h | h)
    · obtain ⟨entry, hentry, hstructural⟩ := exists_evidence_iff.mpr h
      exact ⟨entry, List.mem_filterMap.mpr ⟨_, .head _, hentry⟩, hstructural⟩
    · obtain ⟨entry, hentry, hstructural⟩ := exists_evidence_iff.mpr h
      exact ⟨entry, List.mem_filterMap.mpr ⟨_, .tail _ (.head _), hentry⟩, hstructural⟩
    · obtain ⟨entry, hentry, hstructural⟩ := exists_evidence_iff.mpr h
      exact ⟨entry, List.mem_filterMap.mpr ⟨_, .tail _ (.tail _ (.head _)), hentry⟩, hstructural⟩
    · obtain ⟨entry, hentry, hstructural⟩ := exists_evidence_iff.mpr h
      exact ⟨entry, List.mem_filterMap.mpr ⟨_, .tail _ (.tail _ (.tail _ (.head _))), hentry⟩,
        hstructural⟩
    · obtain ⟨entry, hentry, hstructural⟩ := exists_evidence_iff.mpr h
      exact ⟨entry, List.mem_filterMap.mpr
        ⟨_, .tail _ (.tail _ (.tail _ (.tail _ (.head _)))), hentry⟩, hstructural⟩
    · obtain ⟨entry, hentry, hstructural⟩ := exists_evidence_iff.mpr h
      exact ⟨entry, List.mem_filterMap.mpr
        ⟨_, .tail _ (.tail _ (.tail _ (.tail _ (.tail _ (.head _))))), hentry⟩, hstructural⟩
    · obtain ⟨entry, hentry, hstructural⟩ := exists_evidence_iff.mpr h
      exact ⟨entry, List.mem_filterMap.mpr
        ⟨_, .tail _ (.tail _ (.tail _ (.tail _ (.tail _ (.tail _ (.head _)))))), hentry⟩,
        hstructural⟩

omit [TextRuntime] in
theorem structuralConflict_iff {assessment : ConflictAssessment} :
    structuralConflict assessment = true ↔
      ∃ entry ∈ assessment.evidence, entry.advisory = false ∧ 0 < entry.score := by
  simp only [structuralConflict, List.any_eq_true, Bool.and_eq_true, Bool.not_eq_true',
    decide_eq_true_eq]

/-- **An assessment has structural evidence exactly when one of the lists it scores is not
empty and weighs something.** -/
theorem structural_iff [Printer] {self : ConflictDetector} {first second : AgentPlan}
    {intentAssessment : Option IntentConflictAssessment} {assessment : Option ConflictAssessment}
    {left right : List String} (hleft : arbitrationFiles first = .ok left)
    (hright : arbitrationFiles second = .ok right)
    (h : self.assess first second none intentAssessment = .ok assessment) :
    ¬ Clear assessment ↔
      ∃ pair ∈ self.scoredLists first second (overlap left right), pair.1 ≠ [] ∧ 0 < pair.2 := by
  have hlists : self.scoredLists (completed first) (completed second) (overlap left right) =
      self.scoredLists first second (overlap left right) := by
    simp only [ConflictDetector.scoredLists, ownApis_completed, ownSchemas_completed,
      ownConfigKeys_completed, ownTests_completed, dependencyImpact, ownDependencies_completed,
      resourceNames_completed, ownServices_completed]
    rfl
  unfold ConflictDetector.assess overlappingFiles at h
  dsimp only at h
  rw [show arbitrationFiles (completed first) = .ok left from hleft,
    show arbitrationFiles (completed second) = .ok right from hright] at h
  have h := Except.ok.inj h
  rw [← hlists, ← exists_items_iff]
  constructor
  · intro hclear
    simp only [Clear, not_forall, Bool.not_eq_false] at hclear
    obtain ⟨found, hfound, hstructural⟩ := hclear
    rw [← ConflictDetector.conclude_evidence (h.trans hfound)]
    exact structuralConflict_iff.mp hstructural
  · rintro ⟨entry, hentry, hadvisory, hscore⟩ hclear
    obtain ⟨found, hfound⟩ :=
      self.conclude_isSome (first.taskId, second.taskId) hentry (items_kind hentry hadvisory)
    have hstructural : structuralConflict found = true := by
      rw [structuralConflict_iff, ConflictDetector.conclude_evidence hfound]
      exact ⟨entry, hentry, hadvisory, hscore⟩
    rw [hclear found (h ▸ hfound)] at hstructural
    cases hstructural

/-! ## Plans that are apart -/

/-- The two plans have no structural conflict, as the coordinator assesses them. -/
def Unopposed [Printer] (self : ConflictDetector) (first second : AgentPlan) : Prop :=
  ∀ assessment, self.assess first second none none = .ok assessment → Clear assessment

theorem overlap_mono {first first' second second' : List String} (hf : first ⊆ first')
    (hs : second ⊆ second') : overlap first second ⊆ overlap first' second' := by
  intro value hvalue
  obtain ⟨raw, hraw, hin, htrim, hne⟩ := mem_overlap.mp hvalue
  exact mem_overlap.mpr ⟨raw, hf hraw, List.map_subset _ hs hin, htrim, hne⟩

omit [TextRuntime] in
theorem uniqueStrings_mono {values values' : List String} (h : values ⊆ values') :
    uniqueStrings values ⊆ uniqueStrings values' := by
  intro name hname
  obtain ⟨⟨value, hvalue, htrim⟩, hne⟩ := mem_uniqueStrings.mp hname
  exact mem_uniqueStrings.mpr ⟨⟨value, h hvalue, htrim⟩, hne⟩

omit [TextRuntime] in
theorem append_mono {as as' bs bs' : List String} (ha : as ⊆ as') (hb : bs ⊆ bs') :
    as ++ bs ⊆ as' ++ bs' :=
  List.append_subset.mpr ⟨List.subset_append_of_subset_left _ ha,
    List.subset_append_of_subset_right _ hb⟩

theorem dependencyImpact_mono {left left' right right' : AgentPlan} (hl : Narrows left' left)
    (hr : Narrows right' right) : dependencyImpact left right ⊆ dependencyImpact left' right' := by
  have hoffered : ∀ {consumer consumer' producer producer' : AgentPlan},
      Narrows consumer' consumer → Narrows producer' producer →
        ((ownDependencies consumer).filter fun value =>
            toLowerCase value ∈ resourceNames producer) ⊆
          (ownDependencies consumer').filter fun value =>
            toLowerCase value ∈ resourceNames producer' := by
    intro consumer consumer' producer producer' hconsumer hproducer value hvalue
    obtain ⟨hvalue, hname⟩ := List.mem_filter.mp hvalue
    exact List.mem_filter.mpr ⟨hconsumer.dependencies hvalue,
      decide_eq_true (hproducer.offers (of_decide_eq_true hname))⟩
  refine uniqueStrings_mono (append_mono (append_mono ?_ ?_) ?_)
  · exact hoffered hl hr
  · exact hoffered hr hl
  · exact List.map_subset _ (overlap_mono hl.services hr.services)

theorem assess_files [Printer] {self : ConflictDetector} {first second : AgentPlan}
    {intentAssessment : Option IntentConflictAssessment} {assessment : Option ConflictAssessment}
    (h : self.assess first second none intentAssessment = .ok assessment) :
    ∃ left right, arbitrationFiles first = .ok left ∧ arbitrationFiles second = .ok right := by
  unfold ConflictDetector.assess overlappingFiles at h
  obtain ⟨files, hfiles, -⟩ := except_bind_ok h
  obtain ⟨left, hleft, hfiles⟩ := except_bind_ok hfiles
  obtain ⟨right, hright, -⟩ := except_bind_ok hfiles
  exact ⟨left, right, hleft, hright⟩

theorem assess_isOk [Printer] (self : ConflictDetector) {first second : AgentPlan}
    {intentAssessment : Option IntentConflictAssessment} {left right : List String}
    (hleft : arbitrationFiles first = .ok left) (hright : arbitrationFiles second = .ok right) :
    ∃ assessment, self.assess first second none intentAssessment = .ok assessment := by
  unfold ConflictDetector.assess overlappingFiles
  dsimp only
  rw [show arbitrationFiles (completed first) = .ok left from hleft,
    show arbitrationFiles (completed second) = .ok right from hright]
  exact ⟨_, rfl⟩

theorem assess_taskIds [Printer] {self : ConflictDetector} {first second : AgentPlan}
    {occupancy : Option FileOccupancy} {intentAssessment : Option IntentConflictAssessment}
    {assessment : ConflictAssessment}
    (h : self.assess first second occupancy intentAssessment = .ok (some assessment)) :
    assessment.taskIds = (first.taskId, second.taskId) := by
  unfold ConflictDetector.assess at h
  obtain ⟨files, -, h⟩ := except_bind_ok h
  have h := Except.ok.inj h
  unfold ConflictDetector.conclude at h
  dsimp only at h
  rw [Option.ite_none_left_eq_some] at h
  obtain rfl := Option.some.inj h.2
  rfl

theorem overlap_ne_nil_swap (hblank : BlanksAgree) {first second : List String}
    (h : overlap first second ≠ []) : overlap second first ≠ [] := by
  obtain ⟨value, hvalue⟩ := List.exists_mem_of_ne_nil _ h
  obtain ⟨raw, hraw, hin, rfl, hne⟩ := mem_overlap.mp hvalue
  obtain ⟨other, hother, hlower⟩ := List.mem_map.mp hin
  have hkept : trim other ≠ "" := fun hempty => hne (hblank _ _ hlower hempty)
  exact List.ne_nil_of_mem (mem_overlap.mpr
    ⟨other, hother, List.mem_map.mpr ⟨raw, hraw, hlower.symm⟩, rfl, hkept⟩)

theorem dependencyImpact_ne_nil_swap (hblank : BlanksAgree) {left right : AgentPlan}
    (h : dependencyImpact left right ≠ []) : dependencyImpact right left ≠ [] := by
  obtain ⟨name, hname⟩ := List.exists_mem_of_ne_nil _ h
  unfold dependencyImpact at hname ⊢
  dsimp only at hname ⊢
  obtain ⟨⟨value, hvalue, htrim⟩, hne⟩ := mem_uniqueStrings.mp hname
  rw [List.append_assoc, List.mem_append, List.mem_append] at hvalue
  rcases hvalue with hvalue | hvalue | hvalue
  · refine List.ne_nil_of_mem (mem_uniqueStrings.mpr ⟨⟨value, ?_, htrim⟩, hne⟩)
    exact List.mem_append_left _ (List.mem_append_right _ hvalue)
  · refine List.ne_nil_of_mem (mem_uniqueStrings.mpr ⟨⟨value, ?_, htrim⟩, hne⟩)
    exact List.mem_append_left _ (List.mem_append_left _ hvalue)
  · obtain ⟨service, hservice, -⟩ := List.mem_map.mp hvalue
    obtain ⟨other, hother⟩ := List.exists_mem_of_ne_nil _
      (overlap_ne_nil_swap hblank (List.ne_nil_of_mem hservice))
    have hcolon : trim ("service:" ++ other) ≠ "" :=
      @trim_ne_empty ':' (by decide) _ (by rw [String.toList_append]; simp)
    refine List.ne_nil_of_mem (mem_uniqueStrings.mpr ⟨⟨"service:" ++ other, ?_, rfl⟩, hcolon⟩)
    exact List.mem_append_right _ (List.mem_map.mpr ⟨other, hother, rfl⟩)

theorem Unopposed.symm [Printer] {self : ConflictDetector} {first second : AgentPlan}
    (hblank : BlanksAgree) (h : Unopposed self first second) : Unopposed self second first := by
  intro assessment hassessed
  by_contra hconflict
  obtain ⟨right, left, hright, hleft⟩ := assess_files hassessed
  obtain ⟨other, hother⟩ := assess_isOk self hleft hright
  refine absurd (h other hother) ((structural_iff hleft hright hother).mpr ?_)
  have hlists := (structural_iff hright hleft hassessed).mp hconflict
  have hswap : ∀ {values values' : List String} {weight : ℚ},
      overlap values values' ≠ [] ∧ 0 < weight → overlap values' values ≠ [] ∧ 0 < weight :=
    fun h => ⟨overlap_ne_nil_swap hblank h.1, h.2⟩
  simp only [ConflictDetector.scoredLists, List.mem_cons, List.not_mem_nil, or_false,
    exists_eq_or_imp, exists_eq_left] at hlists ⊢
  rcases hlists with h | h | h | h | h | h | h
  · exact .inl (hswap h)
  · exact .inr (.inl (hswap h))
  · exact .inr (.inr (.inl ⟨dependencyImpact_ne_nil_swap hblank h.1, h.2⟩))
  · exact .inr (.inr (.inr (.inl (hswap h))))
  · exact .inr (.inr (.inr (.inr (.inl (hswap h)))))
  · exact .inr (.inr (.inr (.inr (.inr (.inl (hswap h))))))
  · exact .inr (.inr (.inr (.inr (.inr (.inr (hswap h))))))

/-- **Plans that are apart stay apart when they are narrowed.** -/
theorem Unopposed.mono [Printer] {self : ConflictDetector} {first second first' second' : AgentPlan}
    {assessment : Option ConflictAssessment} (hf : Narrows first' first)
    (hs : Narrows second' second)
    (hassessed : self.assess first' second' none none = .ok assessment)
    (hclear : Clear assessment) : Unopposed self first second := by
  intro narrowed hnarrowed
  by_contra hconflict
  obtain ⟨left, right, hleft, hright⟩ := assess_files hnarrowed
  obtain ⟨left', right', hleft', hright'⟩ := assess_files hassessed
  refine absurd hclear ((structural_iff hleft' hright' hassessed).mpr ?_)
  have hlists := (structural_iff hleft hright hnarrowed).mp hconflict
  have hmono : ∀ {values values' : List String} {weight : ℚ}, values ⊆ values' →
      values ≠ [] ∧ 0 < weight → values' ≠ [] ∧ 0 < weight :=
    fun hsub h => ⟨fun hnil => h.1 (List.subset_nil.mp (hnil ▸ hsub)), h.2⟩
  simp only [ConflictDetector.scoredLists, List.mem_cons, List.not_mem_nil, or_false,
    exists_eq_or_imp, exists_eq_left] at hlists ⊢
  rcases hlists with h | h | h | h | h | h | h
  · exact .inl (hmono (overlap_mono (hf.files _ _ hleft' hleft) (hs.files _ _ hright' hright)) h)
  · exact .inr (.inl (hmono (overlap_mono hf.symbols hs.symbols) h))
  · exact .inr (.inr (.inl (hmono (dependencyImpact_mono hf hs) h)))
  · exact .inr (.inr (.inr (.inl (hmono (overlap_mono hf.apis hs.apis) h))))
  · exact .inr (.inr (.inr (.inr (.inl (hmono (overlap_mono hf.schemas hs.schemas) h)))))
  · exact .inr (.inr (.inr (.inr (.inr (.inl
      (hmono (overlap_mono hf.configKeys hs.configKeys) h))))))
  · exact .inr (.inr (.inr (.inr (.inr (.inr (hmono (overlap_mono hf.tests hs.tests) h))))))

/-! ## A reduction narrows -/

section
variable (plan : AgentPlan) (kept : ResourceType → String → Bool)

omit [TextRuntime] in
theorem asDeclared_narrow (key : PlanDeclarations → Option (List String))
    (enriched : Option (List String)) (p : String → Bool)
    (hkey : ∀ declared : PlanDeclarations,
      key (declared.narrow kept) = (key declared).map (List.filter p)) :
    asDeclared (plan.narrow kept) key (enriched.map (List.filter p)) ⊆
      asDeclared plan key enriched := by
  unfold asDeclared AgentPlan.narrow
  cases plan.declared with
  | none => cases enriched <;> simp
  | some declared =>
    simp only [Option.map_some, hkey]
    cases key declared <;> simp

omit [TextRuntime] in
theorem ownSymbols_narrow : (plan.narrow kept).ownSymbols ⊆ plan.ownSymbols := by
  unfold AgentPlan.ownSymbols AgentPlan.narrow
  cases plan.declared with
  | none =>
    simp only [Option.map_none, Option.bind_none, Option.getD_none]
    exact List.filter_sublist.subset
  | some declared =>
    cases hsymbols : declared.symbols with
    | none =>
      simp only [Option.map_some, Option.bind_some, PlanDeclarations.narrow, hsymbols,
        Option.map_none, Option.getD_none]
      exact List.filter_sublist.subset
    | some symbols =>
      simp only [Option.map_some, Option.bind_some, PlanDeclarations.narrow, hsymbols,
        Option.getD_some]
      exact List.filter_sublist.subset

theorem arbitrationSymbols_narrow :
    arbitrationSymbols (plan.narrow kept) ⊆ arbitrationSymbols plan := by
  have hown := ownSymbols_narrow plan kept
  unfold arbitrationSymbols
  cases hgrounding : plan.grounding with
  | none =>
    simp only [AgentPlan.narrow, hgrounding, Option.map_none]
    exact hown
  | some grounding =>
    simp only [AgentPlan.narrow, hgrounding, Option.map_some]
    refine uniqueStrings_mono (append_mono hown (List.map_subset _ ?_))
    intro entry hentry
    obtain ⟨hentry, hnamed⟩ := List.mem_filter.mp hentry
    refine List.mem_filter.mpr ⟨List.mem_of_mem_filter hentry, ?_⟩
    exact decide_eq_true (List.map_subset _ hown (of_decide_eq_true hnamed))

omit [TextRuntime] in
theorem arbitrationFiles_narrow {all some : List String} (hall : arbitrationFiles plan = .ok all)
    (hsome : arbitrationFiles (plan.narrow kept) = .ok some) : some ⊆ all := by
  unfold arbitrationFiles at hall hsome
  cases hgrounding : plan.grounding with
  | none =>
    simp only [AgentPlan.narrow, hgrounding, Option.map_none] at hall hsome
    obtain rfl := Except.ok.inj hall
    obtain rfl := Except.ok.inj hsome
    exact List.filter_sublist.subset
  | some grounding =>
    simp only [AgentPlan.narrow, hgrounding, Option.map_some] at hall hsome
    intro path hpath
    obtain ⟨value, hvalue, hnormal⟩ := (mem_uniqueRepositoryPaths hsome).mp hpath
    refine (mem_uniqueRepositoryPaths hall).mpr ⟨value, ?_, hnormal⟩
    have hfiles := List.map_subset GroundedFileReference.resolved
      (show (grounding.fileReferents.filter fun entry => kept .file entry.declared) ⊆
        grounding.fileReferents from List.filter_sublist.subset)
    have hsymbols : (grounding.symbolReferents.filter fun entry =>
          kept .symbol entry.declared).flatMap GroundedSymbolReference.files ⊆
        grounding.symbolReferents.flatMap GroundedSymbolReference.files := by
      intro file hfile
      obtain ⟨entry, hentry, hfile⟩ := List.mem_flatMap.mp hfile
      exact List.mem_flatMap.mpr ⟨entry, List.mem_of_mem_filter hentry, hfile⟩
    exact append_mono (append_mono List.filter_sublist.subset hfiles) hsymbols hvalue

theorem resourceNames_mono {plan granted : AgentPlan}
    (hfiles : granted.expectedFiles ⊆ plan.expectedFiles)
    (hsymbols : asDeclared granted PlanDeclarations.symbols (some granted.expectedSymbols) ⊆
      asDeclared plan PlanDeclarations.symbols (some plan.expectedSymbols))
    (hapis : ownApis granted ⊆ ownApis plan) (hschemas : ownSchemas granted ⊆ ownSchemas plan)
    (hservices : ownServices granted ⊆ ownServices plan) :
    resourceNames granted ⊆ resourceNames plan := by
  have hnamed : ∀ (kind : String) {values values' : List String}, values ⊆ values' →
      (values.flatMap fun value => [value, kind ++ ":" ++ value]) ⊆
        values'.flatMap fun value => [value, kind ++ ":" ++ value] := by
    intro kind values values' hsub name hname
    obtain ⟨value, hvalue, hname⟩ := List.mem_flatMap.mp hname
    exact List.mem_flatMap.mpr ⟨value, hsub hvalue, hname⟩
  refine List.map_subset _ (append_mono (append_mono (append_mono (append_mono ?_ ?_) ?_) ?_) ?_)
  · exact hnamed "file" hfiles
  · exact hnamed "symbol" hsymbols
  · exact hnamed "api" hapis
  · exact hnamed "schema" hschemas
  · exact hnamed "service" hservices

theorem narrows_narrow : Narrows plan (plan.narrow kept) where
  taskId := rfl
  files _ _ hall hsome := arbitrationFiles_narrow plan kept hall hsome
  symbols := arbitrationSymbols_narrow plan kept
  dependencies := by
    unfold ownDependencies asDeclared AgentPlan.narrow
    cases plan.declared <;> exact List.Subset.refl _
  offers := resourceNames_mono List.filter_sublist.subset
    (asDeclared_narrow plan kept _ (some plan.expectedSymbols) (kept .symbol) fun _ => rfl)
    (asDeclared_narrow plan kept _ _ (kept .api) fun _ => rfl)
    (asDeclared_narrow plan kept _ _ (kept .schema) fun _ => rfl)
    (asDeclared_narrow plan kept _ _ (kept .service) fun _ => rfl)
  apis := asDeclared_narrow plan kept _ _ (kept .api) fun _ => rfl
  schemas := asDeclared_narrow plan kept _ _ (kept .schema) fun _ => rfl
  services := asDeclared_narrow plan kept _ _ (kept .service) fun _ => rfl
  configKeys := asDeclared_narrow plan kept _ _ (kept .configuration) fun _ => rfl
  tests := asDeclared_narrow plan kept _ _ (kept .test) fun _ => rfl

/-- **What a partial admission grants of a plan narrows it.** -/
theorem narrows_reducePlanScope {plan reduced : AgentPlan} {removed : List PlanResourceRef}
    (hp : Asserted plan) (h : reducePlanScope plan removed = .ok reduced) :
    Narrows plan reduced := by
  rw [reducePlanScope_ok hp h]
  exact narrows_narrow plan (keep removed)

end

end

def inFiles (taskId : String) (files : List String) : AgentPlan where
  taskId := taskId
  objective := "edit"
  expectedFiles := files
  expectedSymbols := []

section

attribute [local instance] asciiRuntime wholePrinter

end
end AgenticGit.Coordinator
