import AgenticGit.Coordinator.PlanAdmission

/- The ways an admission comes to approve a plan.

   What is proved:
     1. `decide_approved` — an approving decision assessed the plan against every
        other one without structural evidence, and leased what it granted.
     2. `admit_approved` — **an approval is the decision on the whole plan, or the
        decision on the plan reduced along a division**, of which there are three:
        by declared paths, of the contested files, and within them. -/
namespace AgenticGit.Coordinator
open AgenticGit.Runtime AgenticGit.Shared PlanAdmissionController

/-! ## claimBlocked -/

theorem mem_occupiedAmong {plan : AgentPlan} {wanted occupied : List String}
    (h : occupiedAmong plan wanted = .ok occupied) {file : String} (hf : file ∈ wanted)
    (hc : claimOccupiesPath plan file = .ok true) : file ∈ occupied := by
  induction wanted generalizing occupied with
  | nil => cases hf
  | cons other wanted ih =>
    unfold occupiedAmong at h
    obtain ⟨occupies, ho, h⟩ := except_bind_ok h
    obtain ⟨rest, hr, h⟩ := except_bind_ok h
    obtain rfl := Except.ok.inj h
    rcases List.mem_cons.mp hf with rfl | hf
    · obtain rfl := Except.ok.inj (ho.symm.trans hc)
      exact List.mem_cons_self
    · split
      · exact List.mem_cons_of_mem _ (ih hr hf)
      · exact ih hr hf

variable {input : PlanAdmissionInput}

theorem claimBlocked_refused {answer : PlanAdmission}
    (h : PlanAdmissionController.claimBlocked input = .ok (some answer)) :
    planAdmissionApproved answer = false := by
  unfold PlanAdmissionController.claimBlocked at h
  dsimp only at h
  split at h
  · cases h
  · obtain ⟨wanted, hw, h⟩ := except_bind_ok h
    obtain ⟨occupied, ho, h⟩ := except_bind_ok h
    split at h
    · cases h
    · obtain rfl := Option.some.inj (Except.ok.inj h)
      rfl

theorem claimBlocked_none (h : PlanAdmissionController.claimBlocked input = .ok none)
    {entry : ActivePlan} (he : entry ∈ input.others input.plan.taskId) :
    isBlanketClaim entry.plan = false ∧
      ∃ wanted, arbitrationFiles input.plan = .ok wanted ∧
        ∀ file ∈ wanted, claimOccupiesPath entry.plan file ≠ .ok true := by
  unfold PlanAdmissionController.claimBlocked at h
  dsimp only at h
  split at h
  · rename_i hnil
    rw [List.eq_nil_of_length_eq_zero hnil] at he
    cases he
  · obtain ⟨wanted, hw, h⟩ := except_bind_ok h
    obtain ⟨occupied, ho, h⟩ := except_bind_ok h
    split at h
    · rename_i hblocking
      obtain ⟨found, hf, hr⟩ := forall₂_mem (mapM_ok ho) he
      have hfree : ¬(found.2.1 || decide (0 < found.2.2.length)) = true := by
        intro hb
        have hm : found ∈ occupied.filter fun entry => entry.2.1 || 0 < entry.2.2.length :=
          List.mem_filter.mpr ⟨hf, hb⟩
        rw [List.eq_nil_of_length_eq_zero hblocking] at hm
        cases hm
      split at hr
      · obtain rfl := Except.ok.inj hr
        exact absurd rfl hfree
      · rename_i hblanket
        obtain ⟨files, hfiles, hr⟩ := except_bind_ok hr
        obtain rfl := Except.ok.inj hr
        refine ⟨eq_false_of_ne_true hblanket, wanted, hw, ?_⟩
        intro file hfile hc
        have hmem := List.length_pos_of_mem (mem_occupiedAmong hfiles hfile hc)
        exact hfree (by simp [hmem])
    · cases h

/-! ## decide -/

section

variable [TextRuntime] [Printer] [Lemmatizer]

/-- What an approving decision went through. -/
structure Clears (controller : PlanAdmissionController) (plan : AgentPlan)
    (input : PlanAdmissionInput) (occupancy : FileOccupancy) (answer : PlanAdmission) : Prop where
  /-- No other plan collides with it structurally. -/
  clear : ∀ entry ∈ input.others plan.taskId, ∃ assessment,
    controller.conflicts.assess plan entry.plan (some occupancy) input.intentAssessment =
      .ok assessment ∧ Clear assessment
  /-- What it grants are the leases it acquired. -/
  acquired : ∃ claims, fileClaims plan occupancy = .ok claims ∧
    ((controller.seededOwnership input (input.others plan.taskId) occupancy).acquire controller.now
      (controller.createId plan.taskId) plan input.agentId input.baseVersion
      { approvedResources := some (approvedSchemaResources plan)
        fileClaims := some claims }).1 = .ok answer.ownershipGrants
  /-- It withholds nothing. -/
  whole : answer.deferredResources = none

omit [TextRuntime] [Lemmatizer] in
theorem blockedAnswer_refused (input : PlanAdmissionInput) (taskId : String)
    (blocking : List ConflictAssessment) :
    planAdmissionApproved (PlanAdmissionController.blockedAnswer input taskId blocking) = false := by
  unfold PlanAdmissionController.blockedAnswer
  dsimp only
  split <;> rfl

omit [TextRuntime] [Lemmatizer] in
theorem acquireOwnership_approved {self : PlanAdmissionController} {plan : AgentPlan}
    {input : PlanAdmissionInput} {occupancy : FileOccupancy}
    {assessments : List ConflictAssessment} {answer : PlanAdmission}
    (h : self.acquireOwnership plan input occupancy assessments = .ok answer)
    (ha : planAdmissionApproved answer = true) :
    ∃ claims, fileClaims plan occupancy = .ok claims ∧
      ((self.seededOwnership input (input.others plan.taskId) occupancy).acquire self.now
        (self.createId plan.taskId) plan input.agentId input.baseVersion
        { approvedResources := some (approvedSchemaResources plan)
          fileClaims := some claims }).1 = .ok answer.ownershipGrants ∧
        answer.deferredResources = none := by
  unfold PlanAdmissionController.acquireOwnership at h
  obtain ⟨claims, hc, h⟩ := except_bind_ok h
  refine ⟨claims, hc, ?_⟩
  split at h
  · split at h
    · obtain rfl := Except.ok.inj h
      cases ha
    · obtain rfl := Except.ok.inj h
      cases ha
  · rename_i grants hg
    obtain rfl := Except.ok.inj h
    exact ⟨hg, rfl⟩

/-- **What an approving decision went through.** -/
theorem decide_approved {self : PlanAdmissionController} {plan : AgentPlan}
    {input : PlanAdmissionInput} {occupancy : FileOccupancy} {reduced : Bool}
    {answer : PlanAdmission} (h : self.decide plan input occupancy reduced = .ok answer)
    (ha : planAdmissionApproved answer = true) : Clears self plan input occupancy answer := by
  unfold PlanAdmissionController.decide at h
  dsimp only at h
  -- the gates on unverifiable work refuse
  split at h
  · obtain rfl := Except.ok.inj h
    cases ha
  · split at h
    · obtain rfl := Except.ok.inj h
      cases ha
    · obtain ⟨assessments, hs, h⟩ := except_bind_ok h
      split at h
      · obtain rfl := Except.ok.inj h
        rw [blockedAnswer_refused] at ha
        cases ha
      · split at h
        · obtain rfl := Except.ok.inj h
          cases ha
        · rename_i hstructural
          obtain ⟨claims, hclaims, hgrants, hwhole⟩ := acquireOwnership_approved h ha
          refine ⟨?_, ⟨claims, hclaims, hgrants⟩, hwhole⟩
          intro entry he
          unfold PlanAdmissionController.assessments at hs
          obtain ⟨found, hm, hs⟩ := except_bind_ok hs
          obtain rfl := Except.ok.inj hs
          obtain ⟨assessment, hf, ha⟩ := forall₂_mem (mapM_ok hm) he
          refine ⟨assessment, ha, ?_⟩
          intro one hone
          by_contra hone'
          apply hstructural
          apply List.length_pos_of_mem
          refine List.mem_filter.mpr ⟨List.mem_filterMap.mpr ⟨assessment, hf, hone⟩, ?_⟩
          exact eq_true_of_ne_false hone'

/-! ## Routes -/

/-- What an answer grants of a plan: the plan, without what was deferred. -/
def grantedPlan (plan : AgentPlan) (admission : PlanAdmission) : Except AgentPlanError AgentPlan :=
  if planAdmissionPartial admission then
    reducePlanScope plan (admission.deferred.map DeferredResource.ref)
  else .ok plan

/-- How a plan comes to be divided: the files that are shared, and what is deferred. -/
inductive Route (self : PlanAdmissionController) (input : PlanAdmissionInput) :
    List PartiallyHeldFile → List DeferredResource → Prop
  /-- By declared paths. -/
  | declaredPaths {contested : List DeferredResource} :
    self.contestedFiles input (input.occupancy []) = .ok contested →
    Route self input [] (contested ++ derivedFrom input contested)
  /-- By the lines the holders of the contested files were read as occupying. -/
  | divided {contested lost symbols : List DeferredResource} {division : Partition}
    {divide : DeferredResource → Except PathError (Option PartiallyHeldFile)} :
    self.contestedFiles input (input.occupancy []) = .ok contested →
    ((∃ declared shareDeclared, uniqueRepositoryPaths input.plan.expectedFiles = .ok declared ∧
        divide = divideContested input declared shareDeclared) ∨
      ∃ locate readable, input.symbolRangesInFile = some locate ∧
        divide = divideWithin input locate readable) →
    partitionBy divide contested = .ok division →
    self.lostWith input division.whole = .ok lost →
    (∀ resource ∈ symbols, resource.resourceType = .symbol) →
    Route self input division.shared
      (lost ++ division.shared.flatMap PartiallyHeldFile.symbols ++ symbols)

/-- What a split grants is the decision on the plan reduced by what it defers. -/
structure Divided (controller : PlanAdmissionController) (input : PlanAdmissionInput)
    (shared : List PartiallyHeldFile) (deferred : List DeferredResource)
    (admission : PlanAdmission) : Prop where
  nonempty : deferred ≠ []
  approved : planAdmissionApproved admission = true
  stated : admission.deferredResources = some deferred
  decided : ∃ reduced answer,
    reducePlanScope input.plan (deferred.map DeferredResource.ref) = .ok reduced ∧
    reduced.expectedFiles ≠ [] ∧
    controller.decide reduced input (input.occupancy shared) true = .ok answer ∧
    planAdmissionApproved answer = true ∧ admission.ownershipGrants = answer.ownershipGrants

omit [Printer] [Lemmatizer] in
theorem grantedPlan_whole {plan granted : AgentPlan} {admission : PlanAdmission}
    (hwhole : admission.deferredResources = none)
    (h : grantedPlan plan admission = .ok granted) : granted = plan := by
  have hpart : planAdmissionPartial admission = false := by
    unfold planAdmissionPartial PlanAdmission.deferred
    rw [hwhole]
    simp
  unfold grantedPlan at h
  rw [hpart] at h
  exact (Except.ok.inj h).symm

theorem grantedPlan_divided {controller : PlanAdmissionController} {input : PlanAdmissionInput}
    {shared : List PartiallyHeldFile} {deferred : List DeferredResource}
    {admission : PlanAdmission} {granted : AgentPlan}
    (hd : Divided controller input shared deferred admission)
    (h : grantedPlan input.plan admission = .ok granted) :
    ∃ answer, reducePlanScope input.plan (deferred.map DeferredResource.ref) = .ok granted ∧
      controller.decide granted input (input.occupancy shared) true = .ok answer ∧
      planAdmissionApproved answer = true ∧
      admission.ownershipGrants = answer.ownershipGrants := by
  obtain ⟨hne, ha, hstated, reduced, answer, hr, -, hdecide, hda, hgrants⟩ := hd
  have hdeferred : admission.deferred = deferred := by
    unfold PlanAdmission.deferred
    rw [hstated, Option.getD_some]
  have hpart : planAdmissionPartial admission = true := by
    unfold planAdmissionPartial
    rw [ha, hdeferred]
    simpa using List.length_pos_of_ne_nil hne
  unfold grantedPlan at h
  rw [if_pos hpart, hdeferred] at h
  obtain rfl := Except.ok.inj (hr.symm.trans h)
  exact ⟨answer, hr, hdecide, hda, hgrants⟩

omit [TextRuntime] [Printer] [Lemmatizer] in
theorem ofPath_ok {α : Type} {result : Except PathError α} {value : α}
    (h : ofPath result = .ok value) : result = .ok value := by
  cases result with
  | error e => cases h
  | ok found => exact congrArg Except.ok (Except.ok.inj h)

variable {found : List DeferredResource}

omit [Lemmatizer] in
theorem contested_resourceType {self : PlanAdmissionController} {input : PlanAdmissionInput}
    {candidate : AgentPlan} {kind : ContestKind} {occupancy : FileOccupancy}
    (h : self.contested input candidate kind occupancy = .ok found) {resource : DeferredResource}
    (hr : resource ∈ found) : resource.resourceType = kind.resourceType := by
  unfold PlanAdmissionController.contested at h
  dsimp only at h
  obtain ⟨declared, -, h⟩ := except_bind_ok h
  obtain ⟨claims, -, h⟩ := except_bind_ok h
  obtain rfl := Except.ok.inj h
  obtain ⟨id, -, rfl⟩ := List.mem_map.mp hr
  rfl

omit [Lemmatizer] in
theorem contestedSymbols_resourceType {self : PlanAdmissionController} {input : PlanAdmissionInput}
    {reduced : AgentPlan} {occupancy : FileOccupancy}
    (h : self.contestedSymbols input reduced occupancy = .ok found) {resource : DeferredResource}
    (hr : resource ∈ found) : resource.resourceType = .symbol := by
  unfold PlanAdmissionController.contestedSymbols at h
  split at h
  · obtain rfl := Except.ok.inj h
    cases hr
  · obtain ⟨contested, hc, h⟩ := except_bind_ok h
    dsimp only at h
    split at h
    · obtain rfl := Except.ok.inj h
      obtain ⟨symbol, hs, rfl⟩ := List.mem_map.mp hr
      show symbol.resourceType = .symbol
      exact contested_resourceType hc hs
    · obtain rfl := Except.ok.inj h
      cases hr

theorem admitDeclaredPaths_granted {self : PlanAdmissionController} {input : PlanAdmissionInput}
    {whole admission : PlanAdmission}
    (h : self.admitDeclaredPaths input whole = .ok (.granted admission)) :
    ∃ deferred, Route self input [] deferred ∧ Divided self input [] deferred admission := by
  unfold PlanAdmissionController.admitDeclaredPaths at h
  dsimp only at h
  obtain ⟨contested, hc, h⟩ := except_bind_ok h
  split at h
  · cases h
  · rename_i hne
    obtain ⟨reduced, hr, h⟩ := except_bind_ok h
    split at h
    · cases h
    · rename_i hfiles
      obtain ⟨answer, hd, h⟩ := except_bind_ok h
      split at h
      · cases h
      · rename_i happroved
        obtain ⟨structural, -, h⟩ := except_bind_ok h
        obtain rfl := Split.granted.inj (Except.ok.inj h)
        refine ⟨contested ++ derivedFrom input contested, .declaredPaths (ofPath_ok hc), ?_⟩
        refine ⟨?_, rfl, rfl, reduced, answer, hr, ?_, ofPath_ok hd, ?_, rfl⟩
        · intro hnil
          exact hne (by rw [(List.append_eq_nil_iff.mp hnil).1]; rfl)
        · intro hnil
          exact hfiles (by rw [hnil]; rfl)
        · simpa using happroved

theorem settle_granted {self : PlanAdmissionController} {input : PlanAdmissionInput}
    {whole answer admission : PlanAdmission} {shared : List PartiallyHeldFile}
    {deferred : List DeferredResource} {reduced : AgentPlan} {noSymbol : String}
    (hdecided : deferred ≠ [] →
      reducePlanScope input.plan (deferred.map DeferredResource.ref) = .ok reduced ∧
        self.decide reduced input (input.occupancy shared) true = .ok answer)
    (hfiles : reduced.expectedFiles ≠ [])
    (h : self.settle input whole shared deferred reduced answer noSymbol =
      .ok (.granted admission)) :
    ∃ symbols : List DeferredResource,
      (∀ resource ∈ symbols, resource.resourceType = .symbol) ∧
      Divided self input shared (deferred ++ symbols) admission := by
  unfold PlanAdmissionController.settle at h
  dsimp only at h
  split at h
  · rename_i happroved
    split at h
    · cases h
    · rename_i hne
      have hne : deferred ≠ [] := fun hnil => hne (by rw [hnil]; rfl)
      obtain ⟨hreduced, hd⟩ := hdecided hne
      obtain rfl := Split.granted.inj (Except.ok.inj h)
      refine ⟨[], by simp, ?_⟩
      rw [List.append_nil]
      exact ⟨hne, rfl, rfl, reduced, answer, hreduced, hfiles, hd, happroved, rfl⟩
  · obtain ⟨symbols, hs, h⟩ := except_bind_ok h
    split at h
    · cases h
    · rename_i hne
      obtain ⟨reduced', hr, h⟩ := except_bind_ok h
      split at h
      · cases h
      · rename_i hfiles'
        obtain ⟨answer', hd, h⟩ := except_bind_ok h
        split at h
        · cases h
        · rename_i happroved
          obtain rfl := Split.granted.inj (Except.ok.inj h)
          refine ⟨symbols, fun resource => contestedSymbols_resourceType (ofPath_ok hs), ?_⟩
          refine ⟨?_, rfl, rfl, reduced', answer', hr, ?_, ofPath_ok hd, ?_, rfl⟩
          · intro hnil
            exact hne (by rw [(List.append_eq_nil_iff.mp hnil).2]; rfl)
          · intro hnil
            exact hfiles' (by rw [hnil]; rfl)
          · simpa using happroved

theorem admitWithinFiles_granted {self : PlanAdmissionController} {input : PlanAdmissionInput}
    {whole admission : PlanAdmission} {contested : List DeferredResource}
    (hc : self.contestedFiles input (input.occupancy []) = .ok contested)
    (h : self.admitWithinFiles input whole contested = .ok (.granted admission)) :
    ∃ shared deferred, Route self input shared deferred ∧
      Divided self input shared deferred admission := by
  unfold PlanAdmissionController.admitWithinFiles at h
  split at h
  · cases h
  · rename_i locate hlocate
    split at h
    · cases h
    · obtain ⟨granted, -, h⟩ := except_bind_ok h
      dsimp only at h
      split at h
      · cases h
      · obtain ⟨division, hdivision, h⟩ := except_bind_ok h
        split at h
        · cases h
        · obtain ⟨lost, hlost, h⟩ := except_bind_ok h
          split at h
          · cases h
          · obtain ⟨reduced, hr, h⟩ := except_bind_ok h
            split at h
            · cases h
            · rename_i hfiles
              obtain ⟨answer, hd, h⟩ := except_bind_ok h
              obtain ⟨symbols, hsymbols, hdivided⟩ := settle_granted
                (fun _ => ⟨hr, ofPath_ok hd⟩) (fun hnil => hfiles (by rw [hnil]; rfl)) h
              exact ⟨division.shared, _, .divided hc (.inr ⟨locate, _, hlocate, rfl⟩)
                (ofPath_ok hdivision) (ofPath_ok hlost) hsymbols, hdivided⟩

theorem admitPartially_granted {self : PlanAdmissionController} {input : PlanAdmissionInput}
    {whole admission : PlanAdmission}
    (h : self.admitPartially input whole = .ok (.granted admission)) :
    ∃ shared deferred, Route self input shared deferred ∧
      Divided self input shared deferred admission := by
  unfold PlanAdmissionController.admitPartially at h
  obtain ⟨contested, hc, h⟩ := except_bind_ok h
  obtain ⟨declared, hdeclared, h⟩ := except_bind_ok h
  dsimp only at h
  obtain ⟨division, hdivision, h⟩ := except_bind_ok h
  obtain ⟨lost, hlost, h⟩ := except_bind_ok h
  have hroute {symbols : List DeferredResource}
      (hsymbols : ∀ resource ∈ symbols, resource.resourceType = .symbol) :
      Route self input division.shared
        (lost ++ division.shared.flatMap PartiallyHeldFile.symbols ++ symbols) :=
    .divided (ofPath_ok hc) (.inl ⟨declared, _, ofPath_ok hdeclared, rfl⟩)
      (ofPath_ok hdivision) (ofPath_ok hlost) hsymbols
  -- with nothing to defer the plan is decided as it was, else as it is reduced
  split at h
  · rename_i hnil
    obtain ⟨reduced, hr, h⟩ := except_bind_ok h
    split at h
    · exact admitWithinFiles_granted (ofPath_ok hc) h
    · rename_i hfiles
      obtain ⟨answer, -, h⟩ := except_bind_ok h
      obtain ⟨symbols, hsymbols, hdivided⟩ := settle_granted
        (fun hne => absurd (List.eq_nil_of_length_eq_zero hnil) hne)
        (fun hnil => hfiles (by rw [hnil]; rfl)) h
      exact ⟨division.shared, _, hroute hsymbols, hdivided⟩
  · obtain ⟨reduced, hr, h⟩ := except_bind_ok h
    split at h
    · exact admitWithinFiles_granted (ofPath_ok hc) h
    · rename_i hfiles
      obtain ⟨answer, hd, h⟩ := except_bind_ok h
      obtain ⟨symbols, hsymbols, hdivided⟩ := settle_granted
        (fun _ => ⟨hr, ofPath_ok hd⟩) (fun hnil => hfiles (by rw [hnil]; rfl)) h
      exact ⟨division.shared, _, hroute hsymbols, hdivided⟩

omit [TextRuntime] [Printer] [Lemmatizer] in
theorem split_approved {whole admission : PlanAdmission} {split : Split}
    (hw : ¬planAdmissionApproved whole = true)
    (h : (match split with
      | .granted admission => pure admission
      | .declined reason =>
        pure { whole with explanation := whole.explanation ++ " (" ++ reason ++ ")" }) =
        (.ok admission : Except AgentPlanError PlanAdmission))
    (ha : planAdmissionApproved admission = true) : split = .granted admission := by
  cases split with
  | granted granted => exact congrArg Split.granted (Except.ok.inj h)
  | declined reason =>
    obtain rfl := Except.ok.inj h
    exact absurd ha hw

theorem admit_blanket {self : PlanAdmissionController} {input : PlanAdmissionInput}
    {admission : PlanAdmission} (h : self.admitPlan input = .ok admission) {entry : ActivePlan}
    (he : entry ∈ input.others input.plan.taskId) (hb : isBlanketClaim entry.plan = true) :
    planAdmissionApproved admission = false := by
  unfold PlanAdmissionController.admitPlan at h
  obtain ⟨claimed, hclaimed, h⟩ := except_bind_ok h
  have hclaimed := ofPath_ok hclaimed
  dsimp only at h
  have hany : ((input.others input.plan.taskId).any fun entry => isBlanketClaim entry.plan) =
      true := List.any_eq_true.mpr ⟨entry, he, hb⟩
  cases claimed with
  | none => exact absurd hb (Bool.eq_false_iff.mp (claimBlocked_none hclaimed he).1)
  | some claimed =>
    rw [hany] at h
    obtain rfl := Except.ok.inj h
    exact claimBlocked_refused hclaimed

/-- **How an approval came about.** The answer is the decision on the whole plan,
which no claim stood in the way of, or what a division of the plan grants. -/
theorem admit_approved {self : PlanAdmissionController} {input : PlanAdmissionInput}
    {admission : PlanAdmission} (h : self.admitPlan input = .ok admission)
    (ha : planAdmissionApproved admission = true) :
    (claimBlocked input = .ok none ∧
        self.decide input.plan input (input.occupancy []) false = .ok admission) ∨
      ∃ shared deferred, Route self input shared deferred ∧
        Divided self input shared deferred admission := by
  unfold PlanAdmissionController.admitPlan at h
  obtain ⟨claimed, hclaimed, h⟩ := except_bind_ok h
  have hclaimed := ofPath_ok hclaimed
  dsimp only at h
  -- whatever the refusal of the whole plan, a split of it is by one of the routes
  have hdeclared {whole : PlanAdmission}
      (hs : self.admitDeclaredPaths input whole = .ok (.granted admission)) :
      ∃ shared deferred, Route self input shared deferred ∧
        Divided self input shared deferred admission := by
    obtain ⟨deferred, hroute, hdivided⟩ := admitDeclaredPaths_granted hs
    exact ⟨[], deferred, hroute, hdivided⟩
  cases claimed with
  | none =>
    obtain ⟨whole, hwhole, h⟩ := except_bind_ok h
    split at h
    · obtain rfl := Except.ok.inj h
      exact .inl ⟨hclaimed, ofPath_ok hwhole⟩
    · rename_i hrefused
      have hrefused : ¬planAdmissionApproved whole = true := by
        intro hw
        exact hrefused (by rw [hw]; rfl)
      split at h
      · obtain ⟨split, hs, h⟩ := except_bind_ok h
        obtain rfl := split_approved hrefused h ha
        exact .inr (hdeclared hs)
      · obtain ⟨split, hs, h⟩ := except_bind_ok h
        obtain rfl := split_approved hrefused h ha
        exact .inr (admitPartially_granted hs)
  | some claimed =>
    have hrefused : ¬planAdmissionApproved claimed = true :=
      Bool.eq_false_iff.mp (claimBlocked_refused hclaimed)
    split at h
    · rename_i hsome _
      obtain rfl := Except.ok.inj h
      obtain rfl := Option.some.inj hsome
      exact absurd ha hrefused
    · obtain ⟨whole, hwhole, h⟩ := except_bind_ok h
      obtain rfl := Except.ok.inj hwhole
      split at h
      · obtain rfl := Except.ok.inj h
        exact absurd ha hrefused
      · split at h
        · obtain ⟨split, hs, h⟩ := except_bind_ok h
          obtain rfl := split_approved hrefused h ha
          exact .inr (hdeclared hs)
        · obtain ⟨split, hs, h⟩ := except_bind_ok h
          obtain rfl := split_approved hrefused h ha
          exact .inr (admitPartially_granted hs)

end

/-! ## A plan behind another -/

def freshController [TextRuntime] : PlanAdmissionController where
  conflicts := .default
  ownership := ⟨300000, defaultTtl_safe, defaultTtl_min, defaultOwnershipPolicy, .empty⟩
  now := 0
  createId taskId index := taskId ++ toString index

/-- A plan that arrives while one other is being executed. -/
def arriving (plan holder : AgentPlan) (index : SymbolIndex) : PlanAdmissionInput where
  plan
  agentId := "newcomer"
  baseRevision := "r1"
  baseVersion := 1
  active := [⟨holder.taskId, "resident", holder⟩]
  symbolRangesInFile := index

/-- A plan for two files, one of them held by `taxPlan`, and for a function in two
spellings. -/
def ratePlan : AgentPlan where
  taskId := "rate"
  objective := "print prices"
  expectedFiles := ["cart.ts", "tax.ts"]
  expectedSymbols := ["Rate", "rate"]

def taxPlan : AgentPlan where
  taskId := "tax"
  objective := "sum up"
  expectedFiles := ["tax.ts"]
  expectedSymbols := []

/-- `tax.ts` declares the function in one of the two spellings. -/
def rateArriving : PlanAdmissionInput :=
  { arriving ratePlan taxPlan none with
    resourcesInFile := some fun file => if file = "tax.ts" then [⟨.symbol, "Rate"⟩] else [] }

attribute [local instance] asciiRuntime wholePrinter plainLemmatizer

end AgenticGit.Coordinator
