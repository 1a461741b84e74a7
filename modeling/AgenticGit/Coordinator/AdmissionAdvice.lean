import Mathlib.Algebra.Order.Ring.Rat
import AgenticGit.Lib.Alike
import AgenticGit.Coordinator.PlanAdmission

/- Two admissions of one plan that differ in the intent assessment they were given.

   What is proved:
     1. `assess_alike` — **advice leaves the binding part of an assessment alone**:
        whether there is structural evidence, what it is, and what it schedules.
     2. `decide_alike`, `admit_alike` — the two admissions choose the same, grant the
        same leases, and defer the same resources behind the same holders.

   Approvals may differ in status (with and without constraints), in constraints, and
   in the advisory evidence they report; refusals in their text. -/
namespace AgenticGit.Coordinator
open AgenticGit.Runtime AgenticGit.Shared PlanAdmissionController

/-! ## What binds -/

/-- A disposition, but for the notification advice can add. -/
def unnotified : ConflictDisposition → ConflictDisposition
  | .concurrentWithNotification => .concurrent
  | disposition => disposition

/-- The part of an assessment that admission branches on. -/
structure Binding where
  taskIds : String × String
  evidence : List ConflictEvidence
  disposition : ConflictDisposition
  deriving DecidableEq

def bindingOf (assessment : ConflictAssessment) : Binding where
  taskIds := assessment.taskIds
  evidence := assessment.evidence.filter fun entry => !entry.advisory
  disposition := unnotified assessment.disposition

/-- What binds of an assessment that may not be there. -/
def binding (assessment : Option ConflictAssessment) : Option Binding :=
  (assessment.filter structuralConflict).map bindingOf

namespace ConflictDetector

section

variable [TextRuntime]

def advice (self : ConflictDetector) (taskIds : String × String) (intent : Option IntentResult) :
    List ConflictEvidence :=
  let independent := intent.any IntentResult.independent
  [if independent then none
    else evidence .intentConflict ((intent.map IntentResult.resources).getD []) taskIds
      ⌊(intent.map IntentResult.probability).getD 0 * self.options.semanticConflictWeight + 1 / 2⌋
      true (intent.map IntentResult.explanation),
    if independent then
      intent.bind fun result =>
        if 0 < result.resources.length then
          some { kind := .intentIndependent, resources := result.resources, taskIds, score := 0,
                 advisory := true, explanation := some result.explanation }
        else none
    else none].filterMap id

omit [TextRuntime] in
theorem evidence_some {kind : ConflictEvidenceKind} {resources : List String}
    {taskIds : String × String} {score : ℚ} {advisory : Bool} {explanation : Option String}
    {entry : ConflictEvidence}
    (h : evidence kind resources taskIds score advisory explanation = some entry) :
    entry.advisory = advisory ∧ entry.kind = kind := by
  unfold evidence at h
  split at h
  · cases h
  · exact (Option.some.inj h) ▸ ⟨rfl, rfl⟩

omit [TextRuntime] in
theorem advice_advisory {self : ConflictDetector} {taskIds : String × String}
    {intent : Option IntentResult} {entry : ConflictEvidence}
    (h : entry ∈ self.advice taskIds intent) : entry.advisory = true := by
  obtain ⟨found, hf, rfl⟩ := List.mem_filterMap.mp h
  rcases List.mem_pair.mp hf with hf | hf
  · split at hf
    · cases hf
    · exact (evidence_some hf.symm).1
  · split at hf
    · obtain ⟨result, -, hf⟩ := Option.bind_eq_some_iff.mp hf.symm
      split at hf
      · exact (Option.some.inj hf) ▸ rfl
      · cases hf
    · cases hf

def Hard (items : List ConflictEvidence) : Prop :=
  ∀ entry ∈ items, entry.advisory = false ∧ entry.kind ≠ .intentIndependent

theorem items_advice (self : ConflictDetector) (left right : AgentPlan)
    (fileOverlap : List String) : ∃ hard, Hard hard ∧
      ∀ intent, self.items left right fileOverlap intent =
        hard ++ self.advice (left.taskId, right.taskId) intent := by
  refine ⟨List.filterMap id [?file, ?symbol, ?dependency, ?api, ?schema, ?configuration, ?test],
    ?hard, ?split⟩
  case split =>
    intro intent
    unfold items advice
    rw [← List.filterMap_append]
    rfl
  case hard =>
    intro entry h
    obtain ⟨found, hf, rfl⟩ := List.mem_filterMap.mp h
    simp only [List.mem_cons, List.not_mem_nil, or_false] at hf
    rcases hf with h | h | h | h | h | h | h
    all_goals
      obtain ⟨ha, hk⟩ := evidence_some h.symm
      exact ⟨ha, by rw [hk]; decide⟩

end

section

variable [Printer]

omit [Printer] in
theorem schedulingScore_append (hard : List ConflictEvidence) {added : List ConflictEvidence}
    (ha : ∀ entry ∈ added, entry.advisory = true) :
    ((hard ++ added).map fun entry => if entry.advisory then 0 else entry.score).sum =
      (hard.map fun entry => if entry.advisory then 0 else entry.score).sum := by
  have hzero : (added.map fun entry => if entry.advisory then 0 else entry.score).sum = 0 := by
    apply List.sum_eq_zero
    intro score hs
    obtain ⟨entry, he, rfl⟩ := List.mem_map.mp hs
    rw [if_pos (ha entry he)]
  rw [List.map_append, List.sum_append, hzero, add_zero]

theorem conclude_some {self : ConflictDetector} {taskIds : String × String}
    {items : List ConflictEvidence} {found : ConflictAssessment}
    (h : self.conclude taskIds items = some found) :
    found.taskIds = taskIds ∧ unnotified found.disposition =
      unnotified (dispositionFor (min 100
        (items.map fun entry => if entry.advisory then 0 else entry.score).sum)
        self.options.thresholds) := by
  unfold conclude at h
  dsimp only at h
  split at h
  · cases h
  · obtain rfl := Option.some.inj h
    refine ⟨rfl, ?_⟩
    dsimp only
    -- the notification is all that is added
    split
    · rename_i hnotified
      simp only [Bool.and_eq_true, decide_eq_true_eq] at hnotified
      rw [hnotified.2]
      rfl
    · rfl

omit [Printer] in
theorem filter_append_advice {hard added : List ConflictEvidence} (hh : Hard hard)
    (ha : ∀ entry ∈ added, entry.advisory = true) :
    (hard ++ added).filter (fun entry => !entry.advisory) = hard := by
  rw [List.filter_append, List.filter_eq_self.mpr, List.filter_eq_nil_iff.mpr, List.append_nil]
  · intro entry he
    simp [ha entry he]
  · intro entry he
    simp [(hh entry he).1]

theorem binding_conclude (self : ConflictDetector) (taskIds : String × String)
    {hard added : List ConflictEvidence} (hh : Hard hard)
    (ha : ∀ entry ∈ added, entry.advisory = true) :
    binding (self.conclude taskIds (hard ++ added)) =
      if hard.any fun entry => 0 < entry.score then
        some
          { taskIds
            evidence := hard
            disposition := unnotified (dispositionFor (min 100
              (hard.map fun entry => if entry.advisory then 0 else entry.score).sum)
              self.options.thresholds) }
      else none := by
  have hstructural {found : ConflictAssessment}
      (hf : self.conclude taskIds (hard ++ added) = some found) :
      structuralConflict found = hard.any fun entry => 0 < entry.score := by
    have hadded : (added.any fun entry => !entry.advisory && 0 < entry.score) = false := by
      rw [List.any_eq_false]
      intro entry he
      simp [ha entry he]
    have hhard : (hard.any fun entry => !entry.advisory && 0 < entry.score) =
        hard.any fun entry => 0 < entry.score := by
      rw [Bool.eq_iff_iff, List.any_eq_true, List.any_eq_true]
      apply exists_congr
      intro entry
      apply and_congr_right
      intro he
      simp [(hh entry he).1]
    unfold structuralConflict
    rw [conclude_evidence hf, List.any_append, hadded, hhard, Bool.or_false]
  cases hany : hard.any fun entry => 0 < entry.score with
  | false =>
    cases hf : self.conclude taskIds (hard ++ added) with
    | none => rfl
    | some found =>
      have hnone := hstructural hf
      rw [hany] at hnone
      simp [binding, Option.filter, hnone]
  | true =>
    obtain ⟨entry, he, -⟩ := List.any_eq_true.mp hany
    obtain ⟨found, hf⟩ := self.conclude_isSome taskIds (List.mem_append_left added he) (hh entry he).2
    obtain ⟨htask, hdisposition⟩ := conclude_some hf
    have hsome := hstructural hf
    rw [hany] at hsome
    rw [schedulingScore_append hard ha] at hdisposition
    simp only [hf, binding, Option.filter, hsome, if_true, Option.map_some, bindingOf, htask,
      conclude_evidence hf, filter_append_advice hh ha, hdisposition]

variable [TextRuntime]

/-- **Advice leaves what binds alone.** -/
theorem assess_alike (self : ConflictDetector) (first second : AgentPlan)
    (occupancy : Option FileOccupancy)
    (intentAssessment other : Option IntentConflictAssessment) :
    Alike (fun a b => binding a = binding b)
      (self.assess first second occupancy intentAssessment)
      (self.assess first second occupancy other) := by
  unfold assess
  dsimp only
  apply Alike.step
  intro fileOverlap
  obtain ⟨hard, hh, hitems⟩ := self.items_advice (completed first) (completed second) fileOverlap
  apply Alike.ok
  rw [hitems, hitems, self.binding_conclude _ hh fun _ => advice_advisory,
    self.binding_conclude _ hh fun _ => advice_advisory]

end

end ConflictDetector

/-! ## Decisions -/

inductive AdmissionChoice where
  | approve | sequence | block | humanApproval
  deriving DecidableEq, Repr

def admissionChoice (admission : PlanAdmission) : AdmissionChoice :=
  match admission.status with
  | .approved | .approvedWithConstraints => .approve
  | .sequenced => .sequence
  | .blocked =>
    if admission.constraints = ["Human approval is required before this plan can run"] then
      .humanApproval
    else .block

/-- Two answers that come to the same: the same choice, the same leases, the same
resources deferred behind the same holders. -/
structure SameDecision (first second : PlanAdmission) : Prop where
  choice : admissionChoice first = admissionChoice second
  taskId : first.taskId = second.taskId
  revisions : first.planRevision = second.planRevision ∧ first.baseRevision = second.baseRevision
  grants : first.ownershipGrants = second.ownershipGrants
  deferred : first.deferredResources = second.deferredResources
  blockedBy : first.blockedBy = second.blockedBy
  retry : first.retryAfterMs = second.retryAfterMs

theorem approved_iff_choice (admission : PlanAdmission) :
    planAdmissionApproved admission = true ↔ admissionChoice admission = .approve := by
  unfold planAdmissionApproved admissionChoice
  cases admission.status with
  | approved => simp
  | approvedWithConstraints => simp
  | sequenced => simp
  | blocked =>
    simp only [reduceCtorEq, decide_false, Bool.or_self, Bool.false_eq_true, false_iff]
    split <;> simp

theorem SameDecision.refl (admission : PlanAdmission) : SameDecision admission admission :=
  ⟨rfl, rfl, ⟨rfl, rfl⟩, rfl, rfl, rfl, rfl⟩

theorem SameDecision.approved {first second : PlanAdmission} (h : SameDecision first second) :
    planAdmissionApproved first = planAdmissionApproved second := by
  rw [Bool.eq_iff_iff, approved_iff_choice, approved_iff_choice, h.choice]

/-! ## decide -/

theorem bindings_eq {found found' : List (Option ConflictAssessment)}
    (h : List.Forall₂ (fun a b => binding a = binding b) found found') :
    ((found.filterMap id).filter structuralConflict).map bindingOf =
      ((found'.filterMap id).filter structuralConflict).map bindingOf := by
  have hbinding (found : List (Option ConflictAssessment)) :
      ((found.filterMap id).filter structuralConflict).map bindingOf =
        found.filterMap binding := by
    rw [List.filter_filterMap, List.map_filterMap]
    rfl
  rw [hbinding, hbinding]
  induction h with
  | nil => rfl
  | cons hab _ ih => rw [List.filterMap_cons, List.filterMap_cons, hab, ih]

theorem blocking_bindings (structural : List ConflictAssessment) :
    (structural.filter fun assessment => assessment.disposition = .block).map bindingOf =
      (structural.map bindingOf).filter fun binding => binding.disposition = .block := by
  rw [List.filter_map]
  congr 1
  apply List.filter_congr
  intro assessment _
  cases h : assessment.disposition <;> simp [bindingOf, unnotified, h]

theorem otherTask_bindings {structural structural' : List ConflictAssessment}
    (h : structural.map bindingOf = structural'.map bindingOf) (taskId : String) :
    (structural.map fun assessment => otherTask assessment taskId) =
      structural'.map fun assessment => otherTask assessment taskId := by
  have hother (structural : List ConflictAssessment) :
      (structural.map fun assessment => otherTask assessment taskId) =
        (structural.map bindingOf).map fun binding =>
          if binding.taskIds.1 ≠ taskId then binding.taskIds.1
          else if binding.taskIds.2 ≠ taskId then binding.taskIds.2 else taskId := by
    rw [List.map_map]
    rfl
  rw [hother, hother, h]

section

variable [TextRuntime] [Printer]

def PlanAdmissionInput.advised (input : PlanAdmissionInput)
    (intentAssessment : Option IntentConflictAssessment) : PlanAdmissionInput :=
  { input with intentAssessment }

omit [TextRuntime] in
theorem blockedAnswer_same (input : PlanAdmissionInput)
    (other : Option IntentConflictAssessment) (taskId : String)
    {blocking blocking' : List ConflictAssessment}
    (h : blocking.map bindingOf = blocking'.map bindingOf) :
    SameDecision (blockedAnswer input taskId blocking)
      (blockedAnswer (input.advised other) taskId blocking') := by
  have hblockedBy := otherTask_bindings h taskId
  unfold blockedAnswer
  dsimp only [PlanAdmissionInput.advised]
  split
  · exact ⟨rfl, rfl, ⟨rfl, rfl⟩, rfl, rfl, hblockedBy, rfl⟩
  · exact ⟨rfl, rfl, ⟨rfl, rfl⟩, rfl, rfl, hblockedBy, rfl⟩

omit [TextRuntime] [Printer] in
theorem approved_ite (c : Prop) [Decidable c] {input : PlanAdmissionInput} {taskId : String}
    {grants : List ResourceLease} {constraints blockedBy : List String}
    {conflicts : List ConflictAssessment} {explanation : String} {retryAfterMs : Option Int} :
    planAdmissionApproved (input.answer taskId
      (if c then .approvedWithConstraints else .approved) grants constraints blockedBy conflicts
      explanation retryAfterMs) = true := by
  unfold planAdmissionApproved PlanAdmissionInput.answer
  split <;> rfl

omit [TextRuntime] in
theorem acquireOwnership_alike (self : PlanAdmissionController) (plan : AgentPlan)
    (input : PlanAdmissionInput) (other : Option IntentConflictAssessment)
    (occupancy : FileOccupancy) (assessments assessments' : List ConflictAssessment) :
    Alike SameDecision (self.acquireOwnership plan input occupancy assessments)
      (self.acquireOwnership plan (input.advised other) occupancy assessments') := by
  have hseeded : self.seededOwnership (input.advised other)
      ((input.advised other).others plan.taskId) occupancy =
      self.seededOwnership input (input.others plan.taskId) occupancy := rfl
  unfold acquireOwnership
  apply Alike.step
  intro claims
  dsimp only
  rw [hseeded]
  dsimp only [PlanAdmissionInput.advised]
  split
  · split
    · exact ⟨rfl, rfl, ⟨rfl, rfl⟩, rfl, rfl, rfl, rfl⟩
    · exact ⟨rfl, rfl, ⟨rfl, rfl⟩, rfl, rfl, rfl, rfl⟩
  · refine ⟨?_, rfl, ⟨rfl, rfl⟩, rfl, rfl, rfl, rfl⟩
    -- with or without advisory constraints, it is an approval
    rw [(approved_iff_choice _).mp (approved_ite _), (approved_iff_choice _).mp (approved_ite _)]

theorem assessments_alike (self : PlanAdmissionController) (plan : AgentPlan)
    (others : List ActivePlan) (occupancy : FileOccupancy)
    (intentAssessment other : Option IntentConflictAssessment) :
    Alike (fun found found' => (found.filter structuralConflict).map bindingOf =
        (found'.filter structuralConflict).map bindingOf)
      (self.assessments plan others occupancy intentAssessment)
      (self.assessments plan others occupancy other) := by
  unfold assessments
  apply (Alike.mapM fun entry _ =>
    self.conflicts.assess_alike plan entry.plan (some occupancy) intentAssessment other).bind
  intro found found' h
  exact Alike.ok (bindings_eq h)

variable [Lemmatizer]

/-- **Two decisions of one plan that differ in the advice come to the same.** -/
theorem decide_alike (self : PlanAdmissionController) (plan : AgentPlan)
    (input : PlanAdmissionInput) (other : Option IntentConflictAssessment)
    (occupancy : FileOccupancy) (reduced : Bool) :
    Alike SameDecision (self.decide plan input occupancy reduced)
      (self.decide plan (input.advised other) occupancy reduced) := by
  unfold PlanAdmissionController.decide
  dsimp only [PlanAdmissionInput.advised]
  apply Alike.ite
  · intro _
    exact ⟨rfl, rfl, ⟨rfl, rfl⟩, rfl, rfl, rfl, rfl⟩
  · intro _
    apply Alike.ite
    · intro _
      exact ⟨rfl, rfl, ⟨rfl, rfl⟩, rfl, rfl, rfl, rfl⟩
    · intro _
      apply (assessments_alike self plan _ occupancy _ _).bind
      intro found found' h
      have hblocking := congrArg
        (List.filter fun binding : Binding => binding.disposition = .block) h
      rw [← blocking_bindings, ← blocking_bindings] at hblocking
      have hlength := congrArg List.length h
      have hlength' := congrArg List.length hblocking
      rw [List.length_map, List.length_map] at hlength hlength'
      rw [← hlength, ← hlength']
      apply Alike.ite
      · intro _
        exact blockedAnswer_same input other plan.taskId hblocking
      · intro _
        apply Alike.ite
        · intro _
          exact ⟨rfl, rfl, ⟨rfl, rfl⟩, rfl, rfl, otherTask_bindings h plan.taskId, rfl⟩
        · intro _
          exact acquireOwnership_alike self plan input other occupancy found found'

/-! ## What does not read the advice -/

variable (self : PlanAdmissionController) (input : PlanAdmissionInput)
  (other : Option IntentConflictAssessment)

omit [Printer] [Lemmatizer] in
theorem occupancy_advised (shared : List PartiallyHeldFile) :
    (input.advised other).occupancy shared = input.occupancy shared := rfl

omit [Printer] [Lemmatizer] in
theorem derivedFrom_advised (contested : List DeferredResource) :
    derivedFrom (input.advised other) contested = derivedFrom input contested := rfl

omit [Lemmatizer] in
theorem contestedFiles_advised (occupancy : FileOccupancy) :
    self.contestedFiles (input.advised other) occupancy =
      self.contestedFiles input occupancy := rfl

omit [Lemmatizer] in
theorem contestedSymbols_advised (reduced : AgentPlan) (occupancy : FileOccupancy) :
    self.contestedSymbols (input.advised other) reduced occupancy =
      self.contestedSymbols input reduced occupancy := rfl

omit [Lemmatizer] in
theorem lostWith_advised (lost : List DeferredResource) :
    self.lostWith (input.advised other) lost = self.lostWith input lost := rfl

omit [Printer] in
theorem divideContested_advised (declared : List String) (shareDeclared : Bool) :
    divideContested (input.advised other) declared shareDeclared =
      divideContested input declared shareDeclared := rfl

omit [Printer] in
theorem divideWithin_advised (locate : String → Option (List NamedRange))
    (readable : List String) :
    divideWithin (input.advised other) locate readable = divideWithin input locate readable := rfl

omit [TextRuntime] [Printer] [Lemmatizer] in
theorem claimBlocked_advised :
    claimBlocked (input.advised other) = claimBlocked input := rfl

/-! ## admit -/

/-- Two splits that grant the same, or grant nothing. -/
def SameSplit : Split → Split → Prop
  | .granted first, .granted second => SameDecision first second
  | .declined _, .declined _ => True
  | _, _ => False

omit [TextRuntime] [Printer] [Lemmatizer] in
theorem partiallyAdmitted_same {answer answer' : PlanAdmission} (h : SameDecision answer answer')
    (whole whole' : PlanAdmission) (reduced : AgentPlan) (deferred : List DeferredResource) :
    SameDecision (partiallyAdmitted whole answer reduced deferred)
      (partiallyAdmitted whole' answer' reduced deferred) :=
  ⟨rfl, h.taskId, h.revisions, h.grants, rfl, rfl, h.retry⟩

omit [TextRuntime] [Printer] [Lemmatizer] in
theorem ofPath_alike {α β : Type} {R : α → β → Prop} {x : Except PathError α}
    {y : Except PathError β} (h : Alike R x y) : Alike R (ofPath x) (ofPath y) :=
  h.mapError AgentPlanError.path

theorem settle_alike {answer answer' : PlanAdmission} (h : SameDecision answer answer')
    (whole whole' : PlanAdmission) (shared : List PartiallyHeldFile)
    (deferred : List DeferredResource) (reduced : AgentPlan) (noSymbol : String) :
    Alike SameSplit (self.settle input whole shared deferred reduced answer noSymbol)
      (self.settle (input.advised other) whole' shared deferred reduced answer' noSymbol) := by
  unfold settle
  dsimp only
  rw [occupancy_advised, contestedSymbols_advised, ← h.approved]
  apply Alike.ite
  · intro _
    apply Alike.ite
    · intro _
      exact trivial
    · intro _
      exact partiallyAdmitted_same h whole whole' reduced deferred
  · intro _
    apply Alike.step
    intro symbols
    apply Alike.ite
    · intro _
      exact trivial
    · intro _
      apply Alike.step
      intro reduced'
      apply Alike.ite
      · intro _
        exact trivial
      · intro _
        apply (ofPath_alike (decide_alike self reduced' input other _ true)).bind
        intro decided decided' hd
        rw [← hd.approved]
        apply Alike.ite
        · intro _
          exact trivial
        · intro _
          exact partiallyAdmitted_same hd whole whole' reduced' _

theorem admitDeclaredPaths_alike (whole whole' : PlanAdmission) :
    Alike SameSplit (self.admitDeclaredPaths input whole)
      (self.admitDeclaredPaths (input.advised other) whole') := by
  unfold admitDeclaredPaths
  dsimp only
  rw [occupancy_advised, contestedFiles_advised]
  apply Alike.step
  intro contested
  rw [derivedFrom_advised]
  apply Alike.ite
  · intro _
    exact trivial
  · intro _
    apply Alike.step
    intro reduced
    apply Alike.ite
    · intro _
      exact trivial
    · intro _
      apply (ofPath_alike (decide_alike self reduced input other _ true)).bind
      intro answer answer' h
      rw [← h.approved]
      apply Alike.ite
      · intro _
        exact trivial
      · intro _
        apply (ofPath_alike (decide_alike self input.plan input other _ true)).bind
        intro structural structural' _
        exact ⟨rfl, h.taskId, h.revisions, h.grants, rfl, rfl, h.retry⟩

theorem admitWithinFiles_alike (whole whole' : PlanAdmission)
    (contested : List DeferredResource) :
    Alike SameSplit (self.admitWithinFiles input whole contested)
      (self.admitWithinFiles (input.advised other) whole' contested) := by
  unfold admitWithinFiles
  rw [show (input.advised other).symbolRangesInFile = input.symbolRangesInFile from rfl]
  split
  · exact trivial
  · rename_i locate _
    apply Alike.ite
    · intro _
      exact trivial
    · intro _
      apply Alike.step
      intro granted
      apply Alike.ite
      · intro _
        exact trivial
      · intro _
        rw [divideWithin_advised]
        apply Alike.step
        intro division
        apply Alike.ite
        · intro _
          exact trivial
        · intro _
          rw [lostWith_advised]
          apply Alike.step
          intro lost
          apply Alike.ite
          · intro _
            exact trivial
          · intro _
            apply Alike.step
            intro reduced
            apply Alike.ite
            · intro _
              exact trivial
            · intro _
              rw [occupancy_advised]
              apply (ofPath_alike (decide_alike self reduced input other _ true)).bind
              intro answer answer' h
              exact settle_alike self input other h whole whole' division.shared _ reduced _

theorem admitPartially_alike {whole whole' : PlanAdmission} (hwhole : SameDecision whole whole') :
    Alike SameSplit (self.admitPartially input whole)
      (self.admitPartially (input.advised other) whole') := by
  unfold admitPartially
  rw [occupancy_advised, contestedFiles_advised]
  apply Alike.step
  intro contested
  apply Alike.step
  intro declared
  dsimp only
  rw [divideContested_advised]
  apply Alike.step
  intro division
  rw [lostWith_advised]
  apply Alike.step
  intro lost
  have hwithin := admitWithinFiles_alike self input other whole whole' contested
  apply Alike.ite
  · intro hnil
    apply Alike.step
    intro reduced
    apply Alike.ite
    · intro _
      exact hwithin
    · intro _
      rw [if_pos hnil, if_pos hnil]
      exact settle_alike self input other hwhole whole whole' division.shared _ reduced _
  · intro hne
    apply Alike.step
    intro reduced
    apply Alike.ite
    · intro _
      exact hwithin
    · intro _
      rw [if_neg hne, if_neg hne, occupancy_advised]
      apply (ofPath_alike (decide_alike self reduced input other _ true)).bind
      intro answer answer' h
      exact settle_alike self input other h whole whole' division.shared _ reduced _

omit [TextRuntime] [Printer] [Lemmatizer] in
theorem SameSplit.answer {whole whole' : PlanAdmission} (h : SameDecision whole whole')
    (split split' : Split) : SameSplit split split' →
    Alike SameDecision
      (match split with
        | .granted admission => pure admission
        | .declined reason =>
          pure { whole with explanation := whole.explanation ++ " (" ++ reason ++ ")" } :
        Except AgentPlanError PlanAdmission)
      (match split' with
        | .granted admission => pure admission
        | .declined reason =>
          pure { whole' with explanation := whole'.explanation ++ " (" ++ reason ++ ")" }) := by
  intro hs
  cases split with
  | granted first =>
    cases split' with
    | granted second => exact hs
    | declined reason' => exact hs.elim
  | declined reason =>
    cases split' with
    | granted second => exact hs.elim
    | declined reason' =>
      exact ⟨h.choice, h.taskId, h.revisions, h.grants, h.deferred, h.blockedBy, h.retry⟩

/-- **Two admissions that differ in the advice come to the same.** -/
theorem admit_alike :
    Alike SameDecision (self.admitPlan input) (self.admitPlan (input.advised other)) := by
  have hsplits {whole whole' : PlanAdmission} (h : SameDecision whole whole') :
      Alike SameDecision
        (if planGroundingConfidence input.plan = .ungrounded then do
          let split ← self.admitDeclaredPaths input whole
          match split with
          | .granted admission => pure admission
          | .declined reason =>
            pure { whole with explanation := whole.explanation ++ " (" ++ reason ++ ")" }
        else do
          let split ← self.admitPartially input whole
          match split with
          | .granted admission => pure admission
          | .declined reason =>
            pure { whole with explanation := whole.explanation ++ " (" ++ reason ++ ")" })
        (if planGroundingConfidence input.plan = .ungrounded then do
          let split ← self.admitDeclaredPaths (input.advised other) whole'
          match split with
          | .granted admission => pure admission
          | .declined reason =>
            pure { whole' with explanation := whole'.explanation ++ " (" ++ reason ++ ")" }
        else do
          let split ← self.admitPartially (input.advised other) whole'
          match split with
          | .granted admission => pure admission
          | .declined reason =>
            pure { whole' with explanation := whole'.explanation ++ " (" ++ reason ++ ")" }) := by
    apply Alike.ite
    · intro _
      apply (admitDeclaredPaths_alike self input other whole whole').bind
      intro split split' hs
      exact SameSplit.answer h split split' hs
    · intro _
      apply (admitPartially_alike self input other h).bind
      intro split split' hs
      exact SameSplit.answer h split split' hs
  unfold admitPlan
  rw [claimBlocked_advised]
  apply Alike.step
  intro claimed
  dsimp only
  rw [show (input.advised other).others (input.advised other).plan.taskId =
    input.others input.plan.taskId from rfl]
  cases claimed with
  | none =>
    rw [occupancy_advised]
    apply (ofPath_alike (decide_alike self input.plan input other _ false)).bind
    intro whole whole' h
    rw [← h.approved]
    apply Alike.ite
    · intro _
      exact h
    · intro _
      exact hsplits h
  | some claimed =>
    split
    · exact SameDecision.refl _
    · apply Alike.step
      intro whole
      apply Alike.ite
      · intro _
        exact SameDecision.refl whole
      · intro _
        exact hsplits (SameDecision.refl whole)

/-- **Advice never decides.** Whatever the intent assessments, what binds of two
assessments of a pair is the same, and so is what two admissions of a plan come to. -/
theorem advice_never_decides (detector : ConflictDetector) (first second : AgentPlan)
    (occupancy : Option FileOccupancy) (one another : Option IntentConflictAssessment) :
    Alike (fun a b => binding a = binding b) (detector.assess first second occupancy one)
        (detector.assess first second occupancy another) ∧
      Alike SameDecision (self.admitPlan (input.advised one)) (self.admitPlan (input.advised another)) :=
  ⟨detector.assess_alike first second occupancy one another,
    admit_alike self (input.advised one) another⟩

end

end AgenticGit.Coordinator
