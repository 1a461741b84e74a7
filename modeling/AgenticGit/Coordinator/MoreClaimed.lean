import Mathlib.Algebra.Order.BigOperators.Group.List
import AgenticGit.Coordinator.Verdicts

/- Plans that claim more, assessed without an occupancy and on the same verdict about the
   intents.

   What is proved:
     1. `assess_mono` — of two pairs of plans, the one that claims more is held as far
        apart, for as high a score, on evidence that names as much.
     2. `Enlarges.narrows` — a plan with longer lists, a longer declared record and more
        referents claims more, where it is read as the smaller one was (`ReadAlike`).
     3. `more_claimed_no_less` — **claiming more never scores less** there.
     4. `more_claimed_loses` — without each part of `ReadAlike` a plan can lose all it was
        assessed for. An absent list of a declared record means that the plan's own list
        is the agent's; a grounded plan is read in the paths and names grounding writes;
        and a path outside the repository is refused. -/
namespace AgenticGit.Coordinator
open AgenticGit.Runtime AgenticGit.Shared

/-! ## Dispositions -/

def severity : ConflictDisposition → Nat
  | .concurrent => 0
  | .concurrentWithNotification => 1
  | .sequence => 2
  | .block => 3

theorem dispositionFor_mono {score score' : ℚ} (h : score ≤ score')
    (thresholds : ConflictThresholds) :
    severity (dispositionFor score thresholds) ≤ severity (dispositionFor score' thresholds) := by
  unfold dispositionFor
  by_cases hconcurrent : score ≤ thresholds.concurrentMaximum
  · rw [if_pos hconcurrent]
    exact Nat.zero_le _
  · have hconcurrent' := fun h' => hconcurrent (h.trans h')
    rw [if_neg hconcurrent, if_neg hconcurrent']
    by_cases hnotify : score ≤ thresholds.notifyMaximum
    · rw [if_pos hnotify]
      split
      · exact Nat.le_refl 1
      · split
        · exact Nat.le_succ 1
        · exact Nat.le_add_left 1 2
    · have hnotify' := fun h' => hnotify (h.trans h')
      rw [if_neg hnotify, if_neg hnotify']
      by_cases hsequence : score ≤ thresholds.sequenceMaximum
      · rw [if_pos hsequence]
        split
        · exact Nat.le_refl 2
        · exact Nat.le_succ 2
      · rw [if_neg hsequence, if_neg fun h' => hsequence (h.trans h')]

theorem severity_notified (disposition : ConflictDisposition) :
    severity (ConflictDetector.notified true disposition) = max 1 (severity disposition) := by
  cases disposition <;> rfl

theorem notified_mono (notify : Bool) {disposition disposition' : ConflictDisposition}
    (h : severity disposition ≤ severity disposition') :
    severity (ConflictDetector.notified notify disposition) ≤
      severity (ConflictDetector.notified notify disposition') := by
  cases notify with
  | false => exact h
  | true =>
    rw [severity_notified, severity_notified]
    exact max_le_max_left 1 h

section
variable [TextRuntime]

/-! ## What is named and what it is worth -/

theorem claimed_mono {plan larger : AgentPlan} (h : Narrows larger plan)
    (kind : ConflictEvidenceKind) : claimed plan kind ⊆ claimed larger kind := by
  cases kind with
  | symbolOverlap => exact h.symbols
  | apiOverlap => exact h.apis
  | schemaOverlap => exact h.schemas
  | configurationOverlap => exact h.configKeys
  | testOverlap => exact h.tests
  | _ => exact List.Subset.refl _

theorem named_mono {left right left' right' : AgentPlan} {files files' : List String}
    (hleft : Narrows left' left) (hright : Narrows right' right) (hfiles : files ⊆ files')
    (kind : ConflictEvidenceKind) : named left right files kind ⊆ named left' right' files' kind := by
  cases kind with
  | fileOverlap => exact hfiles
  | dependencyImpact => exact dependencyImpact_mono hleft hright
  | _ => exact overlap_mono (claimed_mono hleft _) (claimed_mono hright _)

theorem named_nodup (left right : AgentPlan) {files : List String} (h : files.Nodup)
    (kind : ConflictEvidenceKind) : (named left right files kind).Nodup := by
  cases kind with
  | fileOverlap => exact h
  | _ => exact (uniqueStrings_tidy _).nodup

namespace ConflictDetector

theorem worth_nonneg (self : ConflictDetector) (left right : AgentPlan) (files : List String)
    {kind : ConflictEvidenceKind} (h : kind ∈ structuralKinds) :
    0 ≤ self.worth left right files kind :=
  mul_nonneg (Nat.cast_nonneg _) (self.weight_nonneg h)

theorem worth_mono (self : ConflictDetector) {left right left' right' : AgentPlan}
    {files files' : List String} {kind : ConflictEvidenceKind} (hkind : kind ∈ structuralKinds)
    (hnodup : files.Nodup)
    (h : named left right files kind ⊆ named left' right' files' kind) :
    self.worth left right files kind ≤ self.worth left' right' files' kind := by
  have hlength : (named left right files kind).length ≤
      (named left' right' files' kind).length :=
    ((named_nodup left right hnodup kind).subperm h).length_le
  exact mul_le_mul_of_nonneg_right (Nat.cast_le.mpr hlength) (self.weight_nonneg hkind)

/-! ## Totals -/

theorem structural_total (self : ConflictDetector) (left right : AgentPlan) (files : List String)
    (score : Mark → ℚ) (hscore : ∀ kind worth, score ⟨kind, worth, false⟩ = worth) :
    ((structuralKinds.filterMap (self.structuralMark left right files)).map score).sum =
      (structuralKinds.map (self.worth left right files)).sum := by
  have hkinds : ∀ kinds ⊆ structuralKinds,
      ((kinds.filterMap (self.structuralMark left right files)).map score).sum =
        (kinds.map (self.worth left right files)).sum := by
    intro kinds hsub
    induction kinds with
    | nil => rfl
    | cons kind kinds ih =>
      obtain ⟨hkind, hkinds⟩ := List.cons_subset.mp hsub
      rw [List.map_cons, List.sum_cons, ← ih hkinds, List.filterMap_cons, structuralMark]
      by_cases hpos : 0 < self.worth left right files kind
      · rw [if_pos hpos]
        exact (List.sum_cons ..).trans (congrArg (· + _) (hscore _ _))
      · have hzero := le_antisymm (not_lt.mp hpos) (self.worth_nonneg left right files hkind)
        rw [if_neg hpos, hzero, zero_add]
  exact hkinds _ (List.Subset.refl _)

theorem marks_total (self : ConflictDetector) (left right : AgentPlan) (files : List String)
    (intent : Option IntentResult) (score : Mark → ℚ)
    (hscore : ∀ kind worth, score ⟨kind, worth, false⟩ = worth) :
    ((self.marks left right files intent).map score).sum =
      (structuralKinds.map (self.worth left right files)).sum +
        (((self.intentItems (left.taskId, right.taskId) intent).map mark).map score).sum := by
  rw [marks, List.map_append, List.sum_append, self.structural_total left right files score hscore]

theorem notifies_marks (self : ConflictDetector) (left right : AgentPlan) (files : List String)
    (intent : Option IntentResult) :
    notifies (self.marks left right files intent) =
      notifies ((self.intentItems (left.taskId, right.taskId) intent).map mark) := by
  have hstructural : ∀ found ∈ structuralKinds.filterMap (self.structuralMark left right files),
      found.advisory = false ∧ found.kind ≠ .intentIndependent := by
    intro found hfound
    obtain ⟨kind, hkind, hsome⟩ := List.mem_filterMap.mp hfound
    unfold structuralMark at hsome
    rw [Option.ite_none_right_eq_some] at hsome
    obtain rfl := Option.some.inj hsome.2
    refine ⟨rfl, ?_⟩
    rintro rfl
    exact absurd hkind (by decide)
  have hadvisory : ((structuralKinds.filterMap (self.structuralMark left right files)).any
      fun mark => mark.advisory && 0 < mark.score) = false := by
    rw [List.any_eq_false]
    intro found hfound
    rw [(hstructural found hfound).1]
    exact Bool.false_ne_true
  have hindependent : ((structuralKinds.filterMap (self.structuralMark left right files)).any
      fun mark => mark.kind = .intentIndependent) = false := by
    rw [List.any_eq_false]
    intro found hfound
    rw [decide_eq_true_eq]
    exact (hstructural found hfound).2
  unfold notifies marks
  rw [List.any_append, List.any_append, hadvisory, hindependent, Bool.false_or, Bool.false_or]

theorem structuralItem_mono (self : ConflictDetector) {left right left' right' : AgentPlan}
    {files files' : List String} {kind : ConflictEvidenceKind} (hkind : kind ∈ structuralKinds)
    (hnodup : files.Nodup) (h : named left right files kind ⊆ named left' right' files' kind)
    {entry : ConflictEvidence} (hentry : self.structuralItem left right files kind = some entry) :
    ∃ entry', self.structuralItem left' right' files' kind = some entry' ∧
      entry'.kind = entry.kind ∧ entry.resources ⊆ entry'.resources := by
  unfold structuralItem evidence at hentry
  rw [Option.ite_none_left_eq_some, not_or, not_le] at hentry
  obtain ⟨⟨hsome, hworth⟩, hentry⟩ := hentry
  obtain rfl := Option.some.inj hentry
  have hsome' : named left' right' files' kind ≠ [] := by
    intro hnil
    rw [hnil, List.subset_nil] at h
    exact hsome (List.length_eq_zero_iff.mpr h)
  exact ⟨_, evidence_eq_some kind _ false _ hsome'
    (hworth.trans_le (self.worth_mono hkind hnodup h)), rfl, h⟩

theorem items_mono (self : ConflictDetector) {left right left' right' : AgentPlan}
    {files files' : List String} (hleft : Narrows left' left) (hright : Narrows right' right)
    (hfiles : files ⊆ files') (hnodup : files.Nodup) (intent : Option IntentResult)
    {entry : ConflictEvidence} (hentry : entry ∈ self.items left right files intent) :
    ∃ entry' ∈ self.items left' right' files' intent,
      entry'.kind = entry.kind ∧ entry.resources ⊆ entry'.resources := by
  rw [items_eq, hleft.taskId, hright.taskId] at hentry
  rw [items_eq]
  rcases List.mem_append.mp hentry with hentry | hentry
  · obtain ⟨kind, hkind, hsome⟩ := List.mem_filterMap.mp hentry
    obtain ⟨entry', hsome', hmore⟩ :=
      self.structuralItem_mono hkind hnodup (named_mono hleft hright hfiles kind) hsome
    exact ⟨entry', List.mem_append_left _ (List.mem_filterMap.mpr ⟨kind, hkind, hsome'⟩), hmore⟩
  · exact ⟨entry, List.mem_append_right _ hentry, rfl, List.Subset.refl _⟩

theorem totals_mono (self : ConflictDetector) {left right left' right' : AgentPlan}
    {files files' : List String} (hleft : Narrows left' left) (hright : Narrows right' right)
    (hfiles : files ⊆ files') (hnodup : files.Nodup) (intent : Option IntentResult)
    (score : Mark → ℚ) (hscore : ∀ kind worth, score ⟨kind, worth, false⟩ = worth) :
    min 100 ((self.marks left right files intent).map score).sum ≤
      min 100 ((self.marks left' right' files' intent).map score).sum := by
  rw [self.marks_total left right files intent score hscore,
    self.marks_total left' right' files' intent score hscore, ← hleft.taskId, ← hright.taskId]
  refine min_le_min_left 100 (add_le_add_left (List.sum_le_sum fun kind hkind => ?_) _)
  exact self.worth_mono hkind hnodup (named_mono hleft hright hfiles kind)

omit [TextRuntime] in
theorem verdictOf_some {self : ConflictDetector} {marks : List Mark} {found : Verdict}
    (h : self.verdictOf marks = some found) :
    found.score = min 100 (marks.map Mark.score).sum ∧
      found.disposition = notified (notifies marks)
        (dispositionFor (schedulingScore marks) self.options.thresholds) ∧
      ∃ mark ∈ marks, mark.kind ≠ .intentIndependent := by
  unfold verdictOf at h
  rw [Option.ite_none_right_eq_some] at h
  obtain ⟨hany, h⟩ := h
  obtain rfl := Option.some.inj h
  obtain ⟨mark, hmark, hkind⟩ := List.any_eq_true.mp hany
  exact ⟨rfl, rfl, mark, hmark, of_decide_eq_true hkind⟩

theorem assess_some [Printer] {self : ConflictDetector} {first second : AgentPlan}
    {intentAssessment : Option IntentConflictAssessment} {left right : List String}
    {assessed : Option ConflictAssessment} (hleft : arbitrationFiles first = .ok left)
    (hright : arbitrationFiles second = .ok right)
    (h : self.assess first second none intentAssessment = .ok assessed) :
    assessed = self.conclude (first.taskId, second.taskId) (self.items (completed first)
      (completed second) (overlap left right) (intentOf first second intentAssessment)) := by
  unfold assess overlappingFiles at h
  dsimp only at h
  rw [show arbitrationFiles (completed first) = .ok left from hleft,
    show arbitrationFiles (completed second) = .ok right from hright] at h
  exact (Except.ok.inj h).symm

end ConflictDetector

/-- The second assessment holds two plans as far apart as the first, for at least as much. -/
structure NoLess (before after : ConflictAssessment) : Prop where
  score : before.score ≤ after.score
  disposition : severity before.disposition ≤ severity after.disposition
  evidence : ∀ entry ∈ before.evidence, ∃ entry' ∈ after.evidence,
    entry'.kind = entry.kind ∧ entry.resources ⊆ entry'.resources

theorem Narrows.completed {plan larger : AgentPlan} (h : Narrows larger plan) :
    Narrows (completed larger) (completed plan) where
  taskId := h.taskId
  files := h.files
  symbols := h.symbols
  dependencies := h.dependencies
  offers := by
    rw [resourceNames_completed, resourceNames_completed]
    exact h.offers
  apis := by
    rw [ownApis_completed, ownApis_completed]
    exact h.apis
  schemas := by
    rw [ownSchemas_completed, ownSchemas_completed]
    exact h.schemas
  services := by
    rw [ownServices_completed, ownServices_completed]
    exact h.services
  configKeys := by
    rw [ownConfigKeys_completed, ownConfigKeys_completed]
    exact h.configKeys
  tests := by
    rw [ownTests_completed, ownTests_completed]
    exact h.tests

/-- **Of two pairs of plans, the one that claims more is held as far apart**, on the same
verdict about the intents. -/
theorem assess_mono [Printer] {self : ConflictDetector} {first second first' second' : AgentPlan}
    {intentAssessment intentAssessment' : Option IntentConflictAssessment}
    (hfirst : Narrows first' first) (hsecond : Narrows second' second)
    (hintent : ConflictDetector.intentOf first' second' intentAssessment' =
      ConflictDetector.intentOf first second intentAssessment)
    {before : ConflictAssessment}
    (hbefore : self.assess first second none intentAssessment = .ok (some before))
    {assessed : Option ConflictAssessment}
    (hafter : self.assess first' second' none intentAssessment' = .ok assessed) :
    ∃ after, assessed = some after ∧ NoLess before after := by
  obtain ⟨left, right, hleft, hright⟩ := assess_files hbefore
  obtain ⟨left', right', hleft', hright'⟩ := assess_files hafter
  have hfiles : overlap left right ⊆ overlap left' right' :=
    overlap_mono (hfirst.files _ _ hleft' hleft) (hsecond.files _ _ hright' hright)
  have hnodup : (overlap left right).Nodup := (uniqueStrings_tidy _).nodup
  have hitems := ConflictDetector.assess_some hleft hright hbefore
  have hitems' := ConflictDetector.assess_some hleft' hright' hafter
  rw [hintent] at hitems'
  generalize ConflictDetector.intentOf first second intentAssessment = intent at *
  have hverdict := self.conclude_verdict (first.taskId, second.taskId)
    (self.items (completed first) (completed second) (overlap left right) intent)
  rw [← hitems, self.items_marks] at hverdict
  obtain ⟨hscore, hdisposition, found, hfound, hkind⟩ :=
    ConflictDetector.verdictOf_some hverdict.symm
  have hmore := fun {entry} => @ConflictDetector.items_mono _ self _ _ _ _ _ _ hfirst.completed
    hsecond.completed hfiles hnodup intent entry
  -- what makes the first assessment substantive is there in the second
  rw [← self.items_marks] at hfound
  obtain ⟨entry, hentry, rfl⟩ := List.mem_map.mp hfound
  obtain ⟨entry', hentry', hsame, -⟩ := hmore hentry
  obtain ⟨after, hsome⟩ := self.conclude_isSome (first'.taskId, second'.taskId) hentry'
    (hsame ▸ hkind)
  have hverdict' := self.conclude_verdict (first'.taskId, second'.taskId)
    (self.items (completed first') (completed second') (overlap left' right') intent)
  rw [hsome, self.items_marks] at hverdict'
  obtain ⟨hscore', hdisposition', -⟩ := ConflictDetector.verdictOf_some hverdict'.symm
  refine ⟨after, hitems'.trans hsome, ?_, ?_, ?_⟩
  · exact (hscore.trans_le (self.totals_mono hfirst.completed hsecond.completed hfiles hnodup
      intent Mark.score fun _ _ => rfl)).trans_eq hscore'.symm
  · refine (congrArg severity hdisposition).trans_le (le_of_le_of_eq ?_
      (congrArg severity hdisposition').symm)
    rw [self.notifies_marks, self.notifies_marks (completed first'), hfirst.completed.taskId,
      hsecond.completed.taskId]
    exact notified_mono _ (dispositionFor_mono (self.totals_mono hfirst.completed
      hsecond.completed hfiles hnodup intent (fun mark => if mark.advisory then 0 else mark.score)
      fun _ _ => rfl) _)
  · rw [ConflictDetector.conclude_evidence hitems.symm, ConflictDetector.conclude_evidence hsome]
    exact fun entry hentry => hmore hentry

/-! ## Enlargements -/

/-- A record that declares at least as much under every key. -/
structure DeclaresMore (declared larger : PlanDeclarations) : Prop where
  symbols : declared.symbols.getD [] ⊆ larger.symbols.getD []
  dependencies : declared.dependencies.getD [] ⊆ larger.dependencies.getD []
  apis : declared.apis.getD [] ⊆ larger.apis.getD []
  schemas : declared.schemas.getD [] ⊆ larger.schemas.getD []
  configKeys : declared.configKeys.getD [] ⊆ larger.configKeys.getD []
  tests : declared.tests.getD [] ⊆ larger.tests.getD []
  services : declared.services.getD [] ⊆ larger.services.getD []

/-- A record with at least as many referents. -/
structure GroundsMore (grounding larger : PlanGrounding) : Prop where
  fileReferents : grounding.fileReferents ⊆ larger.fileReferents
  symbolReferents : ∀ entry ∈ grounding.symbolReferents, ∃ entry' ∈ larger.symbolReferents,
    entry'.declared = entry.declared ∧ entry'.resolved = entry.resolved ∧
      entry.files ⊆ entry'.files

/-- A plan that claims at least as much, in its own lists, in its declared record where it
has one, and in what it was grounded to. -/
structure Enlarges (plan larger : AgentPlan) : Prop where
  taskId : larger.taskId = plan.taskId
  expectedFiles : plan.expectedFiles ⊆ larger.expectedFiles
  expectedSymbols : plan.expectedSymbols ⊆ larger.expectedSymbols
  dependencies : plan.dependencies ⊆ larger.dependencies
  expectedApis : plan.expectedApis.getD [] ⊆ larger.expectedApis.getD []
  expectedSchemas : plan.expectedSchemas.getD [] ⊆ larger.expectedSchemas.getD []
  expectedConfigKeys : plan.expectedConfigKeys.getD [] ⊆ larger.expectedConfigKeys.getD []
  expectedTests : plan.expectedTests.getD [] ⊆ larger.expectedTests.getD []
  expectedServices : plan.expectedServices.getD [] ⊆ larger.expectedServices.getD []
  declared : Option.Rel DeclaresMore plan.declared larger.declared
  grounding : ∀ grounding ∈ plan.grounding, ∃ larger' ∈ larger.grounding,
    GroundsMore grounding larger'

/-- The larger plan is read as the smaller one was. -/
structure ReadAlike (plan larger : AgentPlan) : Prop where
  /-- A record that gets a list of symbols gets those its plan was read with. -/
  symbols : ∀ declared ∈ plan.declared, declared.symbols = none → ∀ declared' ∈ larger.declared,
    ∀ symbols ∈ declared'.symbols, plan.expectedSymbols ⊆ symbols
  /-- A plan that gets a grounding record is written as grounding writes it. -/
  grounded : plan.grounding = none → larger.grounding ≠ none →
    (∀ file ∈ plan.expectedFiles, normalizeRepositoryPath file = .ok file) ∧
      ∀ symbol ∈ plan.ownSymbols, trim symbol = symbol ∧ symbol ≠ ""
  /-- The files of a grounded plan are paths of the repository. -/
  readable : ∃ files, arbitrationFiles larger = .ok files

section
variable {plan larger : AgentPlan}

omit [TextRuntime] in
theorem Enlarges.asDeclared (h : Enlarges plan larger)
    (key : PlanDeclarations → Option (List String)) {enriched enriched' : Option (List String)}
    (henriched : enriched.getD [] ⊆ enriched'.getD [])
    (hkey : ∀ declared larger, DeclaresMore declared larger →
      (key declared).getD [] ⊆ (key larger).getD []) :
    asDeclared plan key enriched ⊆ asDeclared larger key enriched' := by
  have hdeclared := h.declared
  unfold Coordinator.asDeclared
  cases hplan : plan.declared with
  | none =>
    rw [hplan] at hdeclared
    cases hlarger : larger.declared with
    | none => exact henriched
    | some declared' =>
      rw [hlarger] at hdeclared
      cases hdeclared
  | some declared =>
    rw [hplan] at hdeclared
    cases hlarger : larger.declared with
    | none =>
      rw [hlarger] at hdeclared
      cases hdeclared
    | some declared' =>
      rw [hlarger] at hdeclared
      cases hdeclared with
      | some hmore => exact hkey _ _ hmore

omit [TextRuntime] in
theorem Enlarges.ownSymbols (h : Enlarges plan larger) (hread : ReadAlike plan larger) :
    plan.ownSymbols ⊆ larger.ownSymbols := by
  have hdeclared := h.declared
  unfold AgentPlan.ownSymbols
  cases hplan : plan.declared with
  | none =>
    rw [hplan] at hdeclared
    cases hlarger : larger.declared with
    | none => exact h.expectedSymbols
    | some declared' =>
      rw [hlarger] at hdeclared
      cases hdeclared
  | some declared =>
    rw [hplan] at hdeclared
    cases hlarger : larger.declared with
    | none =>
      rw [hlarger] at hdeclared
      cases hdeclared
    | some declared' =>
      rw [hlarger] at hdeclared
      cases hdeclared with
      | some hmore =>
        rw [Option.bind_some, Option.bind_some]
        cases hsymbols : declared.symbols with
        | none =>
          cases hsymbols' : declared'.symbols with
          | none => exact h.expectedSymbols
          | some symbols =>
            exact hread.symbols declared hplan hsymbols declared' hlarger symbols hsymbols'
        | some symbols =>
          have hsub := hmore.symbols
          rw [hsymbols, Option.getD_some] at hsub
          cases hsymbols' : declared'.symbols with
          | none =>
            rw [hsymbols'] at hsub
            exact fun symbol hsymbol => absurd (hsub hsymbol) List.not_mem_nil
          | some symbols' =>
            rw [hsymbols'] at hsub
            exact hsub

theorem Enlarges.arbitrationSymbols (h : Enlarges plan larger) (hread : ReadAlike plan larger) :
    arbitrationSymbols plan ⊆ arbitrationSymbols larger := by
  have hown := h.ownSymbols hread
  unfold Shared.arbitrationSymbols
  cases hplan : plan.grounding with
  | none =>
    cases hlarger : larger.grounding with
    | none => exact hown
    | some grounding =>
      intro symbol hsymbol
      obtain ⟨htrim, hne⟩ := (hread.grounded hplan (hlarger ▸ Option.some_ne_none _)).2 _ hsymbol
      exact mem_uniqueStrings.mpr ⟨⟨symbol, List.mem_append_left _ (hown hsymbol), htrim⟩, hne⟩
  | some grounding =>
    obtain ⟨larger', hlarger, hmore⟩ := h.grounding grounding hplan
    rw [show larger.grounding = some larger' from hlarger]
    refine uniqueStrings_mono (append_mono hown ?_)
    intro name hname
    obtain ⟨entry, hentry, rfl⟩ := List.mem_map.mp hname
    obtain ⟨hentry, hdeclared⟩ := List.mem_filter.mp hentry
    obtain ⟨entry', hentry', hsame, hresolved, -⟩ := hmore.symbolReferents entry hentry
    refine List.mem_map.mpr ⟨entry', List.mem_filter.mpr ⟨hentry', ?_⟩, hresolved⟩
    rw [hsame]
    exact decide_eq_true (List.map_subset _ hown (of_decide_eq_true hdeclared))

omit [TextRuntime] in
theorem Enlarges.arbitrationFiles (h : Enlarges plan larger) (hread : ReadAlike plan larger)
    {all kept : List String} (hall : arbitrationFiles larger = .ok all)
    (hkept : arbitrationFiles plan = .ok kept) : kept ⊆ all := by
  unfold Shared.arbitrationFiles at hall hkept
  cases hplan : plan.grounding with
  | none =>
    rw [hplan] at hkept
    obtain rfl := Except.ok.inj hkept
    cases hlarger : larger.grounding with
    | none =>
      rw [hlarger] at hall
      obtain rfl := Except.ok.inj hall
      exact h.expectedFiles
    | some grounding =>
      rw [hlarger] at hall
      intro file hfile
      have hnormal := (hread.grounded hplan (hlarger ▸ Option.some_ne_none _)).1 file hfile
      exact (mem_uniqueRepositoryPaths hall).mpr
        ⟨file, List.mem_append_left _ (List.mem_append_left _ (h.expectedFiles hfile)), hnormal⟩
  | some grounding =>
    obtain ⟨larger', hlarger, hmore⟩ := h.grounding grounding hplan
    rw [show larger.grounding = some larger' from hlarger] at hall
    rw [hplan] at hkept
    intro path hpath
    obtain ⟨value, hvalue, hnormal⟩ := (mem_uniqueRepositoryPaths hkept).mp hpath
    refine (mem_uniqueRepositoryPaths hall).mpr ⟨value, ?_, hnormal⟩
    refine append_mono (append_mono h.expectedFiles (List.map_subset _ hmore.fileReferents)) ?_ hvalue
    intro file hfile
    obtain ⟨entry, hentry, hfile⟩ := List.mem_flatMap.mp hfile
    obtain ⟨entry', hentry', -, -, hfiles⟩ := hmore.symbolReferents entry hentry
    exact List.mem_flatMap.mpr ⟨entry', hentry', hfiles hfile⟩

/-- **A plan narrows its enlargements.** -/
theorem Enlarges.narrows (h : Enlarges plan larger) (hread : ReadAlike plan larger) :
    Narrows larger plan := by
  have hapis := h.asDeclared PlanDeclarations.apis h.expectedApis fun _ _ hmore => hmore.apis
  have hschemas := h.asDeclared PlanDeclarations.schemas h.expectedSchemas
    fun _ _ hmore => hmore.schemas
  have hservices := h.asDeclared PlanDeclarations.services h.expectedServices
    fun _ _ hmore => hmore.services
  exact
    { taskId := h.taskId.symm
      files := fun _ _ hall hkept => h.arbitrationFiles hread hall hkept
      symbols := h.arbitrationSymbols hread
      dependencies := h.asDeclared PlanDeclarations.dependencies h.dependencies
        fun _ _ hmore => hmore.dependencies
      offers := resourceNames_mono h.expectedFiles
        (h.asDeclared PlanDeclarations.symbols h.expectedSymbols fun _ _ hmore => hmore.symbols)
        hapis hschemas hservices
      apis := hapis
      schemas := hschemas
      services := hservices
      configKeys := h.asDeclared PlanDeclarations.configKeys h.expectedConfigKeys
        fun _ _ hmore => hmore.configKeys
      tests := h.asDeclared PlanDeclarations.tests h.expectedTests fun _ _ hmore => hmore.tests }

end

/-- **Claiming more never scores less**, where the larger plans are read as the smaller ones
were. -/
theorem more_claimed_no_less [Printer] (self : ConflictDetector)
    {first second first' second' : AgentPlan} (hfirst : Enlarges first first')
    (hsecond : Enlarges second second') (hreadFirst : ReadAlike first first')
    (hreadSecond : ReadAlike second second')
    {intentAssessment intentAssessment' : Option IntentConflictAssessment}
    (hintent : ConflictDetector.intentOf first' second' intentAssessment' =
      ConflictDetector.intentOf first second intentAssessment)
    {before : ConflictAssessment}
    (hbefore : self.assess first second none intentAssessment = .ok (some before)) :
    ∃ after, self.assess first' second' none intentAssessment' = .ok (some after) ∧
      NoLess before after := by
  obtain ⟨left, hleft⟩ := hreadFirst.readable
  obtain ⟨right, hright⟩ := hreadSecond.readable
  obtain ⟨assessed, hassessed⟩ :=
    @assess_isOk _ _ self _ _ intentAssessment' _ _ hleft hright
  obtain ⟨after, rfl, hmore⟩ := assess_mono (hfirst.narrows hreadFirst)
    (hsecond.narrows hreadSecond) hintent hbefore hassessed
  exact ⟨after, hassessed, hmore⟩

end

/-! ## Plans that are read otherwise -/

theorem outcome_eq_some {assessed : Except PathError (Option ConflictAssessment)}
    {found : Verdict} (h : outcome assessed = some (some found)) :
    ∃ assessment, assessed = .ok (some assessment) := by
  cases assessed with
  | error e => cases h
  | ok assessment =>
    cases assessment with
    | none => cases h
    | some assessment => exact ⟨assessment, rfl⟩

/-- A plan that names files and symbols, and what its record and its grounding say. -/
def smallPlan (taskId : String) (files symbols : List String)
    (declared : Option PlanDeclarations) (grounding : Option PlanGrounding) : AgentPlan where
  taskId
  objective := "change"
  expectedFiles := files
  expectedSymbols := symbols
  declared
  grounding

/-- A grounding record of files that were misnamed. -/
def groundedTo (referents : List GroundedFileReference) : PlanGrounding where
  confidence := .grounded
  missingFiles := []
  unresolvedSymbols := []
  fileReferents := referents
  symbolReferents := []
  notes := []

theorem smallPlan_enlarges (taskId : String) {files files' symbols symbols' : List String}
    {declared declared' : Option PlanDeclarations} {grounding grounding' : Option PlanGrounding}
    (hfiles : files ⊆ files') (hsymbols : symbols ⊆ symbols')
    (hdeclared : Option.Rel DeclaresMore declared declared')
    (hgrounding : ∀ ground ∈ grounding, ∃ larger ∈ grounding', GroundsMore ground larger) :
    Enlarges (smallPlan taskId files symbols declared grounding)
      (smallPlan taskId files' symbols' declared' grounding') where
  taskId := rfl
  expectedFiles := hfiles
  expectedSymbols := hsymbols
  dependencies := List.Subset.refl _
  expectedApis := List.Subset.refl _
  expectedSchemas := List.Subset.refl _
  expectedConfigKeys := List.Subset.refl _
  expectedTests := List.Subset.refl _
  expectedServices := List.Subset.refl _
  declared := hdeclared
  grounding := hgrounding

theorem more_claimed_no_less_symbols :
    ∃ before after,
      @ConflictDetector.assess asciiRuntime wholePrinter .default
          (smallPlan "one" [] ["total"] none none) (smallPlan "two" [] ["Total", "tax"] none none)
          none none = .ok (some before) ∧
        @ConflictDetector.assess asciiRuntime wholePrinter .default
            (smallPlan "one" [] ["total", "Tax"] none none)
            (smallPlan "two" [] ["Total", "tax"] none none) none none = .ok (some after) ∧
          NoLess before after := by
  have houtcome : outcome (@ConflictDetector.assess asciiRuntime wholePrinter .default
      (smallPlan "one" [] ["total"] none none) (smallPlan "two" [] ["Total", "tax"] none none)
      none none) = some (some ⟨35, .concurrentWithNotification, {(.symbolOverlap, 35)}⟩) := by
    decide +kernel
  obtain ⟨before, hbefore⟩ := outcome_eq_some houtcome
  have hmore : ∀ taskId {symbols symbols' : List String}, symbols ⊆ symbols' →
      Enlarges (smallPlan taskId [] symbols none none) (smallPlan taskId [] symbols' none none) :=
    fun taskId _ _ hsymbols => smallPlan_enlarges taskId (List.Subset.refl _) hsymbols .none
      fun _ h => by cases h
  have hread : ∀ (taskId : String) (symbols symbols' : List String),
      ReadAlike (smallPlan taskId [] symbols none none) (smallPlan taskId [] symbols' none none) :=
    fun _ _ _ => ⟨fun _ h => (by cases h), fun _ h => absurd rfl h, _, rfl⟩
  obtain ⟨after, hafter, hless⟩ := @more_claimed_no_less asciiRuntime wholePrinter .default
    _ _ _ _ (@hmore "one" ["total"] ["total", "Tax"] (by decide))
    (hmore "two" (List.Subset.refl ["Total", "tax"])) (hread _ _ _) (hread _ _ _) none none rfl
    before hbefore
  exact ⟨before, after, hbefore, hafter, hless⟩

/-- A plan is enlarged, on the same verdict about the intents, and what it was assessed to
conflict with it no longer is. -/
def Loses (plan larger other : AgentPlan) : Prop :=
  Enlarges plan larger ∧
    @ConflictDetector.intentOf asciiRuntime larger other none =
      @ConflictDetector.intentOf asciiRuntime plan other none ∧
    (∃ before, @ConflictDetector.assess asciiRuntime wholePrinter .default plan other none none =
      .ok (some before)) ∧
    ¬∃ after, @ConflictDetector.assess asciiRuntime wholePrinter .default larger other none none =
      .ok (some after)

theorem loses_of_outcome (found : Verdict) {plan larger other : AgentPlan}
    (hmore : Enlarges plan larger)
    (hintent : @ConflictDetector.intentOf asciiRuntime larger other none =
      @ConflictDetector.intentOf asciiRuntime plan other none)
    (hbefore : outcome (@ConflictDetector.assess asciiRuntime wholePrinter .default plan other
      none none) = some (some found))
    (hafter : (outcome (@ConflictDetector.assess asciiRuntime wholePrinter .default larger other
      none none)).join = none) : Loses plan larger other := by
  refine ⟨hmore, hintent, outcome_eq_some hbefore, ?_⟩
  rintro ⟨after, h⟩
  rw [h] at hafter
  cases hafter

/-- **A plan can lose all it was assessed for by claiming more**: when its record gets a list
of symbols that leaves out those it was read with, when grounding rewrites a name, and when
what it adds is no path of the repository. -/
theorem more_claimed_loses :
    Loses (smallPlan "one" [] ["total"] (some {}) none)
        (smallPlan "one" [] ["total", "tax"] (some { symbols := some ["tax"] }) none)
        (smallPlan "two" [] ["total"] none none) ∧
      Loses (smallPlan "one" ["./a.ts"] [] none none)
        (smallPlan "one" ["./a.ts"] [] none (some (groundedTo [⟨"b", "b.ts"⟩])))
        (smallPlan "two" ["./a.ts"] [] none none) ∧
      Loses (smallPlan "one" ["a.ts"] [] none (some (groundedTo [])))
        (smallPlan "one" ["a.ts", "../b.ts"] [] none (some (groundedTo [])))
        (smallPlan "two" ["a.ts"] [] none none) := by
  refine ⟨?_, ?_, ?_⟩
  · refine loses_of_outcome ⟨35, .concurrentWithNotification, {(.symbolOverlap, 35)}⟩
      (smallPlan_enlarges _ (List.Subset.refl _) (by decide) (.some ?_) fun _ h => by cases h)
      rfl (by decide +kernel) (by decide +kernel)
    refine ⟨by decide, ?_, ?_, ?_, ?_, ?_, ?_⟩ <;> exact List.Subset.refl _
  · exact loses_of_outcome ⟨20, .concurrent, {(.fileOverlap, 20)}⟩
      (smallPlan_enlarges _ (List.Subset.refl _) (List.Subset.refl _) .none fun _ h => by cases h)
      rfl (by decide +kernel) (by decide +kernel)
  · refine loses_of_outcome ⟨20, .concurrent, {(.fileOverlap, 20)}⟩
      (smallPlan_enlarges _ (by decide) (List.Subset.refl _) .none ?_)
      rfl (by decide +kernel) (by decide +kernel)
    rintro _ ⟨⟩
    exact ⟨_, rfl, ⟨List.Subset.refl _, fun entry hentry => ⟨entry, hentry, rfl, rfl,
      List.Subset.refl _⟩⟩⟩

end AgenticGit.Coordinator
