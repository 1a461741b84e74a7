import Mathlib.Algebra.Order.Monoid.Unbundled.WithTop
import Mathlib.Data.Multiset.Basic
import Mathlib.Data.Sym.Sym2
import AgenticGit.Coordinator.Waves
import AgenticGit.Coordinator.Verdicts

/- Assessing two plans either way round.

   Names are shared in whatever case, and counted in the spelling of the plan that comes
   first. What is proved:
     1. `verdictOf_marks_iff` — two verdicts agree exactly when every kind of structural
        evidence is worth the same in both.
     2. `outcome_comm_iff` — two plans come to the same verdict either way round exactly
        when they spell what they share in as many ways on either side.
     3. `assess_symmetric_iff` — so does every pair of a list in whatever order it comes,
        where all are evenly spelt; `preferredOrder` is symmetric for any two plans.
     4. `assess_not_symmetric` — a plan that spells a symbol twice scores twice as much
        from its own side.

   Correspondence (TypeScript ↔ Lean):
     an assessment that throws            ↔ no `outcome`, `⊤` among `findings`
     a symmetric `intentAssessment`       ↔ `IntentSymmetric`
     the pairs of `assessAll`, in no order ↔ `findings` -/
namespace AgenticGit.Coordinator
open AgenticGit.Runtime AgenticGit.Shared

section
variable [TextRuntime]

/-! ## Spellings -/

omit [TextRuntime] in
def spellings (values : List String) : Finset String := ((values.map trim).toFinset).erase ""

omit [TextRuntime] in
theorem mem_spellings {values : List String} {name : String} :
    name ∈ spellings values ↔ (∃ value ∈ values, trim value = name) ∧ name ≠ "" := by
  simp only [spellings, Finset.mem_erase, List.mem_toFinset, List.mem_map, and_comm]

omit [TextRuntime] in
theorem toFinset_uniqueStrings (values : List String) :
    (uniqueStrings values).toFinset = spellings values := by
  ext name
  rw [List.mem_toFinset, mem_uniqueStrings, mem_spellings]

omit [TextRuntime] in
theorem length_uniqueStrings (values : List String) :
    (uniqueStrings values).length = (spellings values).card := by
  rw [← toFinset_uniqueStrings, List.toFinset_card_of_nodup (uniqueStrings_tidy values).nodup]

/-- How the first list spells what the second one names too, in whatever case. -/
def sharedSpellings (first second : List String) : Finset String :=
  spellings (first.filter fun value => toLowerCase value ∈ second.map toLowerCase)

theorem toFinset_overlap (first second : List String) :
    (overlap first second).toFinset = sharedSpellings first second :=
  toFinset_uniqueStrings _

theorem length_overlap (first second : List String) :
    (overlap first second).length = (sharedSpellings first second).card :=
  length_uniqueStrings _

/-- How the first plan's side spells what one of two plans depends on and the other offers. -/
def impactSpellings (first second : AgentPlan) : Finset String :=
  let offered := fun (consumer producer : AgentPlan) =>
    (ownDependencies consumer).filter fun value => toLowerCase value ∈ resourceNames producer
  spellings (offered first second) ∪ spellings (offered second first) ∪
    (sharedSpellings (ownServices first) (ownServices second)).image fun value =>
      trim ("service:" ++ value)

omit [TextRuntime] in
theorem spellings_append (first second : List String) :
    spellings (first ++ second) = spellings first ∪ spellings second := by
  unfold spellings
  rw [List.map_append, List.toFinset_append, Finset.erase_union_distrib]

theorem length_dependencyImpact (first second : AgentPlan) :
    (dependencyImpact first second).length = (impactSpellings first second).card := by
  have hservices : spellings ((overlap (ownServices first) (ownServices second)).map
        fun value => "service:" ++ value) =
      (sharedSpellings (ownServices first) (ownServices second)).image fun value =>
        trim ("service:" ++ value) := by
    ext name
    rw [mem_spellings, Finset.mem_image, ← toFinset_overlap]
    constructor
    · rintro ⟨⟨value, hvalue, rfl⟩, -⟩
      obtain ⟨service, hservice, rfl⟩ := List.mem_map.mp hvalue
      exact ⟨service, List.mem_toFinset.mpr hservice, rfl⟩
    · rintro ⟨service, hservice, rfl⟩
      refine ⟨⟨_, List.mem_map.mpr ⟨service, List.mem_toFinset.mp hservice, rfl⟩, rfl⟩, ?_⟩
      exact @trim_ne_empty ':' (by decide) _ (by rw [String.toList_append]; simp)
  unfold dependencyImpact impactSpellings
  dsimp only
  rw [length_uniqueStrings, spellings_append, spellings_append, hservices]

/-! ## Files two plans meet in -/

def Readable (occupancy : Option FileOccupancy) (first second : AgentPlan) (file : String) :
    Prop :=
  ∀ read ∈ occupancy, (read first file).isOk = true ∧ (read second file).isOk = true

def meets (occupancy : Option FileOccupancy) (first second : AgentPlan) (file : String) : Bool :=
  match occupancy with
  | none => true
  | some read =>
    match read first file, read second file with
    | .ok left, .ok right => meet left right
    | _, _ => false

variable {first second : AgentPlan}

omit [TextRuntime] in
theorem meetingFiles_ok_iff {read : FileOccupancy} {files met : List String} :
    meetingFiles read first second files = .ok met ↔
      (∀ file ∈ files, Readable (some read) first second file) ∧
        met = files.filter (meets (some read) first second) := by
  induction files generalizing met with
  | nil =>
    rw [meetingFiles, Except.ok.injEq]
    exact ⟨fun h => ⟨fun _ hfile => absurd hfile List.not_mem_nil, h.symm⟩, fun h => h.2.symm⟩
  | cons file files ih =>
    rw [meetingFiles, List.forall_mem_cons]
    cases hleft : read first file with
    | error e =>
      constructor
      · exact fun h => by cases h
      · rintro ⟨⟨hfile, -⟩, -⟩
        have hok := (hfile read rfl).1
        rw [hleft] at hok
        cases hok
    | ok left =>
      cases hright : read second file with
      | error e =>
        constructor
        · exact fun h => by cases h
        · rintro ⟨⟨hfile, -⟩, -⟩
          have hok := (hfile read rfl).2
          rw [hright] at hok
          cases hok
      | ok right =>
        have hmeets : meets (some read) first second file = meet left right := by
          simp only [meets, hleft, hright]
        have hfile : Readable (some read) first second file := by
          rintro _ ⟨⟩
          rw [hleft, hright]
          exact ⟨rfl, rfl⟩
        cases hrest : meetingFiles read first second files with
        | error e =>
          constructor
          · exact fun h => by cases h
          · rintro ⟨⟨-, hfiles⟩, -⟩
            rw [ih.mpr ⟨hfiles, rfl⟩] at hrest
            cases hrest
        | ok rest =>
          obtain ⟨hfiles, rfl⟩ := ih.mp hrest
          rw [List.filter_cons, hmeets]
          constructor
          · exact fun h => ⟨⟨hfile, hfiles⟩, (Except.ok.inj h).symm⟩
          · exact fun h => congrArg Except.ok h.2.symm

theorem overlappingFiles_ok_iff {occupancy : Option FileOccupancy} {files : List String} :
    overlappingFiles first second occupancy = .ok files ↔
      ∃ left right, arbitrationFiles first = .ok left ∧ arbitrationFiles second = .ok right ∧
        (∀ file ∈ overlap left right, Readable occupancy first second file) ∧
        files = (overlap left right).filter (meets occupancy first second) := by
  unfold overlappingFiles
  cases hleft : arbitrationFiles first with
  | error e =>
    constructor
    · exact fun h => by cases h
    · rintro ⟨left, right, h, -⟩
      cases h
  | ok left =>
    cases hright : arbitrationFiles second with
    | error e =>
      constructor
      · exact fun h => by cases h
      · rintro ⟨left, right, -, h, -⟩
        cases h
    | ok right =>
      cases occupancy with
      | none =>
        have hall : (overlap left right).filter (meets none first second) =
            overlap left right := List.filter_eq_self.mpr fun _ _ => rfl
        constructor
        · intro h
          exact ⟨left, right, rfl, rfl, fun _ _ _ hread => (by cases hread),
            (Except.ok.inj h).symm.trans hall.symm⟩
        · rintro ⟨_, _, ⟨⟩, ⟨⟩, -, rfl⟩
          exact congrArg Except.ok hall.symm
      | some read =>
        constructor
        · intro h
          obtain ⟨hread, hfiles⟩ := meetingFiles_ok_iff.mp h
          exact ⟨left, right, rfl, rfl, hread, hfiles⟩
        · rintro ⟨_, _, ⟨⟩, ⟨⟩, hread, hfiles⟩
          exact meetingFiles_ok_iff.mpr ⟨hread, hfiles⟩

/-! ## Intents -/

/-- What a verdict reads of what was made of two intents. -/
def weighed (result : IntentResult) : ℚ × Bool × Bool :=
  (result.probability, result.resources.isEmpty, result.independent)

/-- An intent assessment that makes the same of two plans in either order, as far as a
verdict reads it. -/
def IntentSymmetric (intentAssessment : Option IntentConflictAssessment) : Prop :=
  ∀ assess ∈ intentAssessment, ∀ first second,
    (assess first second).map weighed = (assess second first).map weighed

theorem analyzeIntent_weighed (first second : AgentPlan) :
    (analyzeIntent first second).map weighed = (analyzeIntent second first).map weighed := by
  unfold analyzeIntent
  dsimp only
  generalize words (statedIntent first) = left
  generalize words (statedIntent second) = right
  generalize hneutral : (fun word => !OPPOSING_ACTIONS.any fun action =>
    word = action.1 || word = action.2) = neutral
  have hempty : ∀ {left right : List String},
      (sortStrings ((left.filter fun word => word ∈ right).filter neutral)).length = 0 →
        (sortStrings ((right.filter fun word => word ∈ left).filter neutral)).length = 0 := by
    intro left right h
    rw [List.length_eq_zero_iff, List.eq_nil_iff_forall_not_mem] at h ⊢
    intro word hword
    rw [mem_sortStrings, List.mem_filter, List.mem_filter, decide_eq_true_eq] at hword
    refine h word ?_
    rw [mem_sortStrings, List.mem_filter, List.mem_filter, decide_eq_true_eq]
    exact ⟨hword.1.symm, hword.2⟩
  have hopposed : ∀ action : String × String,
      ((decide (action.1 ∈ left) && decide (action.2 ∈ right) ||
          decide (action.2 ∈ left) && decide (action.1 ∈ right)) : Bool) =
        (decide (action.1 ∈ right) && decide (action.2 ∈ left) ||
          decide (action.2 ∈ right) && decide (action.1 ∈ left)) := by
    intro action
    rw [Bool.or_comm, Bool.and_comm, Bool.and_comm (decide (action.1 ∈ left))]
  by_cases hnone : (sortStrings ((left.filter fun word => word ∈ right).filter neutral)).length = 0
  · rw [if_pos hnone, if_pos (hempty hnone)]
  · have hother := fun h => hnone (@hempty right left h)
    rw [if_neg hnone, if_neg hother, funext hopposed, Option.map_map, Option.map_map]
    refine congrArg (Option.map · _) (funext fun action => ?_)
    simp only [Function.comp, weighed, Prod.mk.injEq, true_and, and_true]
    rw [List.length_eq_zero_iff] at hnone hother
    rw [List.isEmpty_eq_false_iff.mpr hnone, List.isEmpty_eq_false_iff.mpr hother]

namespace ConflictDetector

theorem intentOf_weighed {intentAssessment : Option IntentConflictAssessment}
    (h : IntentSymmetric intentAssessment) (first second : AgentPlan) :
    (intentOf first second intentAssessment).map weighed =
      (intentOf second first intentAssessment).map weighed := by
  cases intentAssessment with
  | none => exact analyzeIntent_weighed (completed first) (completed second)
  | some assess => exact h assess rfl _ _

variable {intent intent' : Option IntentResult}

omit [TextRuntime] in
theorem intentItems_weighed (self : ConflictDetector) (taskIds taskIds' : String × String)
    (h : intent.map weighed = intent'.map weighed) :
    (self.intentItems taskIds intent).map mark = (self.intentItems taskIds' intent').map mark := by
  cases intent with
  | none =>
    cases intent' with
    | none => rfl
    | some _ => cases h
  | some result =>
    cases intent' with
    | none => cases h
    | some result' =>
      simp only [Option.map_some, weighed, Option.some.injEq, Prod.mk.injEq] at h
      obtain ⟨hprobability, hresources, hindependent⟩ := h
      have hlength : result.resources.length = 0 ↔ result'.resources.length = 0 := by
        rw [List.length_eq_zero_iff, List.length_eq_zero_iff, ← List.isEmpty_iff,
          ← List.isEmpty_iff, hresources]
      unfold intentItems evidence
      simp only [Option.any_some, Option.map_some, Option.getD_some, Option.bind_some,
        hprobability, hindependent, hlength, Nat.pos_iff_ne_zero, ne_eq]
      cases result'.independent with
      | true =>
        by_cases hzero : result'.resources.length = 0
        · simp only [hzero, not_true, if_true, if_false, List.filterMap_cons, List.filterMap_nil,
            id_eq]
        · simp only [hzero, not_false_eq_true, if_true, List.filterMap_cons, List.filterMap_nil,
            id_eq, List.map_cons, List.map_nil, mark]
      | false =>
        simp only [Bool.false_eq_true, if_false]
        split
        · rfl
        · rfl

/-! ## When two verdicts agree -/

variable {self : ConflictDetector}

omit [TextRuntime] in
theorem verdictOf_kinds {marks marks' : List Mark}
    (h : self.verdictOf marks = self.verdictOf marks') {kind : ConflictEvidenceKind} {score : ℚ}
    (hkind : kind ≠ .intentIndependent) (hmark : ∃ mark ∈ marks, mark.kind = kind ∧
      mark.score = score) : ∃ mark ∈ marks', mark.kind = kind ∧ mark.score = score := by
  obtain ⟨found, hfound, rfl, rfl⟩ := hmark
  have hany : (marks.any fun mark => mark.kind ≠ .intentIndependent) = true :=
    List.any_eq_true.mpr ⟨found, hfound, decide_eq_true hkind⟩
  unfold verdictOf at h
  rw [if_pos hany] at h
  by_cases hany' : (marks'.any fun mark => mark.kind ≠ .intentIndependent) = true
  · rw [if_pos hany', Option.some.injEq, Verdict.mk.injEq] at h
    have hpair : (found.kind, found.score) ∈
        (marks'.map fun mark => (mark.kind, mark.score)).toFinset := by
      rw [← h.2.2, List.mem_toFinset]
      exact List.mem_map.mpr ⟨found, hfound, rfl⟩
    obtain ⟨mark, hmark, hpair⟩ := List.mem_map.mp (List.mem_toFinset.mp hpair)
    exact ⟨mark, hmark, congrArg Prod.fst hpair, congrArg Prod.snd hpair⟩
  · rw [if_neg hany'] at h
    cases h

omit [TextRuntime] in
theorem intentItems_kind {taskIds : String × String} {intent : Option IntentResult}
    {entry : ConflictEvidence} (h : entry ∈ self.intentItems taskIds intent) :
    entry.kind = .intentConflict ∨ entry.kind = .intentIndependent := by
  obtain ⟨option, hoption, hsome⟩ := List.mem_filterMap.mp h
  obtain rfl : option = some entry := hsome
  simp only [List.mem_cons, List.not_mem_nil, or_false] at hoption
  rcases hoption with h | h
  · rw [eq_comm, Option.ite_none_left_eq_some] at h
    exact .inl (evidence_kind h.2).1
  · rw [eq_comm, Option.ite_none_right_eq_some] at h
    obtain ⟨result, -, h⟩ := Option.bind_eq_some_iff.mp h.2
    rw [Option.ite_none_right_eq_some] at h
    obtain rfl := Option.some.inj h.2
    exact .inr rfl

theorem exists_mark_iff {left right : AgentPlan} {files : List String}
    {intent : Option IntentResult} {kind : ConflictEvidenceKind} (hkind : kind ∈ structuralKinds)
    {score : ℚ} :
    (∃ mark ∈ self.marks left right files intent, mark.kind = kind ∧ mark.score = score) ↔
      0 < self.worth left right files kind ∧ self.worth left right files kind = score := by
  constructor
  · rintro ⟨found, hfound, rfl, rfl⟩
    rcases List.mem_append.mp hfound with hfound | hfound
    · obtain ⟨kind, -, hsome⟩ := List.mem_filterMap.mp hfound
      unfold structuralMark at hsome
      rw [Option.ite_none_right_eq_some] at hsome
      obtain ⟨hpos, hsome⟩ := hsome
      obtain rfl := Option.some.inj hsome
      exact ⟨hpos, rfl⟩
    · exfalso
      obtain ⟨entry, hentry, rfl⟩ := List.mem_map.mp hfound
      have hnot : .intentConflict ∉ structuralKinds ∧ .intentIndependent ∉ structuralKinds := by
        decide
      rcases intentItems_kind hentry with h | h
      · exact hnot.1 (h ▸ hkind)
      · exact hnot.2 (h ▸ hkind)
  · rintro ⟨hpos, rfl⟩
    refine ⟨⟨kind, _, false⟩, List.mem_append_left _ (List.mem_filterMap.mpr ⟨kind, hkind, ?_⟩),
      rfl, rfl⟩
    exact if_pos hpos

/-- **Two verdicts agree exactly when every structural kind is worth the same in both**,
where the intents are read alike. -/
theorem verdictOf_marks_iff {left right left' right' : AgentPlan} {files files' : List String}
    (h : intent.map weighed = intent'.map weighed) :
    self.verdictOf (self.marks left right files intent) =
        self.verdictOf (self.marks left' right' files' intent') ↔
      ∀ kind ∈ structuralKinds,
        self.worth left right files kind = self.worth left' right' files' kind := by
  constructor
  · intro hverdict kind hkind
    have hindependent : kind ≠ .intentIndependent := by
      rintro rfl
      exact absurd hkind (by decide)
    have hmine : 0 ≤ self.worth left right files kind :=
      mul_nonneg (Nat.cast_nonneg _) (self.weight_nonneg hkind)
    have htheirs : 0 ≤ self.worth left' right' files' kind :=
      mul_nonneg (Nat.cast_nonneg _) (self.weight_nonneg hkind)
    rcases hmine.lt_or_eq with hpos | hzero
    · have hmarked := verdictOf_kinds hverdict hindependent
        ((exists_mark_iff hkind).mpr ⟨hpos, rfl⟩)
      exact ((exists_mark_iff hkind).mp hmarked).2.symm
    · rcases htheirs.lt_or_eq with hpos | hzero'
      · have hmarked := verdictOf_kinds hverdict.symm hindependent
          ((exists_mark_iff hkind).mpr ⟨hpos, rfl⟩)
        exact ((exists_mark_iff hkind).mp hmarked).2
      · rw [← hzero, ← hzero']
  · intro hworth
    have hstructural : structuralKinds.filterMap (self.structuralMark left right files) =
        structuralKinds.filterMap (self.structuralMark left' right' files') := by
      refine List.filterMap_congr fun kind hkind => ?_
      unfold structuralMark
      rw [hworth kind hkind]
    rw [marks, marks, hstructural, self.intentItems_weighed _ (left'.taskId, right'.taskId) h]

end ConflictDetector

/-! ## Assessing either way round -/

/-- The spellings a kind of evidence counts from the first plan's side. -/
def countedSpellings (occupancy : Option FileOccupancy) (first second : AgentPlan)
    (left right : List String) : ConflictEvidenceKind → Finset String
  | .fileOverlap => (sharedSpellings left right).filter fun file =>
      meets occupancy first second file = true
  | .dependencyImpact => impactSpellings first second
  | kind => sharedSpellings (claimed first kind) (claimed second kind)

/-- Two plans spell what they share, in whatever case, in as many ways on either side, for
every kind of evidence that weighs something; and where the occupancy of a file cannot be
read by one plan's spelling of it, neither can that of a file by the other's. -/
structure EvenlySpelled (detector : ConflictDetector) (occupancy : Option FileOccupancy)
    (first second : AgentPlan) : Prop where
  readable : ∀ left right, arbitrationFiles first = .ok left → arbitrationFiles second = .ok right →
    ((∀ file ∈ sharedSpellings left right, Readable occupancy first second file) ↔
      ∀ file ∈ sharedSpellings right left, Readable occupancy first second file)
  counted : ∀ left right, arbitrationFiles first = .ok left → arbitrationFiles second = .ok right →
    (∀ file ∈ sharedSpellings left right, Readable occupancy first second file) →
    ∀ kind ∈ structuralKinds, detector.options.weight kind = 0 ∨
      (countedSpellings occupancy first second left right kind).card =
        (countedSpellings occupancy second first right left kind).card

theorem length_named {occupancy : Option FileOccupancy} {first second : AgentPlan}
    {left right : List String} (kind : ConflictEvidenceKind) :
    (named first second ((overlap left right).filter (meets occupancy first second))
        kind).length =
      (countedSpellings occupancy first second left right kind).card := by
  cases kind with
  | fileOverlap =>
    unfold named countedSpellings
    rw [← toFinset_overlap, ← List.toFinset_filter, List.toFinset_card_of_nodup]
    exact (uniqueStrings_tidy _).nodup.filter _
  | dependencyImpact => exact length_dependencyImpact first second
  | _ => exact length_overlap _ _

omit [TextRuntime] in
theorem Readable.symm {occupancy : Option FileOccupancy} {first second : AgentPlan} {file : String}
    (h : Readable occupancy first second file) : Readable occupancy second first file :=
  fun read hread => (h read hread).symm

section
variable {occupancy : Option FileOccupancy} {first second : AgentPlan} {left right : List String}
  (hleft : arbitrationFiles first = .ok left) (hright : arbitrationFiles second = .ok right)
include hleft hright

theorem overlappingFiles_readable
    (h : ∀ file ∈ sharedSpellings left right, Readable occupancy first second file) :
    (overlappingFiles first second occupancy).toOption =
      some ((overlap left right).filter (meets occupancy first second)) := by
  have hread : ∀ file ∈ overlap left right, Readable occupancy first second file := by
    intro file hfile
    rw [← List.mem_toFinset, toFinset_overlap] at hfile
    exact h file hfile
  rw [overlappingFiles_ok_iff.mpr ⟨left, right, hleft, hright, hread, rfl⟩]
  rfl

theorem overlappingFiles_unreadable
    (h : ¬∀ file ∈ sharedSpellings left right, Readable occupancy first second file) :
    (overlappingFiles first second occupancy).toOption = none := by
  cases hfiles : overlappingFiles first second occupancy with
  | error e => rfl
  | ok files =>
    exfalso
    obtain ⟨_, _, hleft', hright', hread, -⟩ := overlappingFiles_ok_iff.mp hfiles
    obtain rfl := Except.ok.inj (hleft.symm.trans hleft')
    obtain rfl := Except.ok.inj (hright.symm.trans hright')
    refine h fun file hfile => hread file ?_
    rwa [← toFinset_overlap, List.mem_toFinset] at hfile

end

theorem overlappingFiles_error {occupancy : Option FileOccupancy} {first second : AgentPlan}
    {e : PathError} (h : arbitrationFiles first = .error e ∨ arbitrationFiles second = .error e) :
    (overlappingFiles first second occupancy).toOption = none := by
  cases hfiles : overlappingFiles first second occupancy with
  | error e => rfl
  | ok files =>
    obtain ⟨left, right, hleft, hright, -⟩ := overlappingFiles_ok_iff.mp hfiles
    rcases h with h | h
    · rw [hleft] at h
      cases h
    · rw [hright] at h
      cases h

/-- **Two plans come to the same verdict either way round exactly when they are evenly
spelt.** -/
theorem outcome_comm_iff [Printer] (self : ConflictDetector) (first second : AgentPlan)
    (occupancy : Option FileOccupancy) {intentAssessment : Option IntentConflictAssessment}
    (h : IntentSymmetric intentAssessment) :
    outcome (self.assess first second occupancy intentAssessment) =
        outcome (self.assess second first occupancy intentAssessment) ↔
      EvenlySpelled self occupancy (completed first) (completed second) := by
  rw [self.outcome_assess, self.outcome_assess]
  have hintent := ConflictDetector.intentOf_weighed h first second
  generalize completed first = one at *
  generalize completed second = other at *
  cases hleft : arbitrationFiles one with
  | error e =>
    rw [overlappingFiles_error (.inl hleft), overlappingFiles_error (.inr hleft),
      Option.map_none, Option.map_none]
    refine ⟨fun _ => ⟨fun left right h => ?_, fun left right h => ?_⟩, fun _ => rfl⟩
    · rw [hleft] at h
      cases h
    · rw [hleft] at h
      cases h
  | ok left =>
    cases hright : arbitrationFiles other with
    | error e =>
      rw [overlappingFiles_error (.inr hright), overlappingFiles_error (.inl hright),
        Option.map_none, Option.map_none]
      refine ⟨fun _ => ⟨fun left right _ h => ?_, fun left right _ h => ?_⟩, fun _ => rfl⟩
      · rw [hright] at h
        cases h
      · rw [hright] at h
        cases h
    | ok right =>
      have hsymm : (∀ file ∈ sharedSpellings right left, Readable occupancy other one file) ↔
          ∀ file ∈ sharedSpellings right left, Readable occupancy one other file :=
        forall₂_congr fun file _ => ⟨Readable.symm, Readable.symm⟩
      have heven : EvenlySpelled self occupancy one other ↔
          ((∀ file ∈ sharedSpellings left right, Readable occupancy one other file) ↔
              ∀ file ∈ sharedSpellings right left, Readable occupancy one other file) ∧
            ((∀ file ∈ sharedSpellings left right, Readable occupancy one other file) →
              ∀ kind ∈ structuralKinds, self.options.weight kind = 0 ∨
                (countedSpellings occupancy one other left right kind).card =
                  (countedSpellings occupancy other one right left kind).card) := by
        constructor
        · exact fun h => ⟨h.readable left right hleft hright, h.counted left right hleft hright⟩
        · rintro ⟨hreadable, hcounted⟩
          constructor
          · intro left' right' hleft' hright'
            obtain rfl := Except.ok.inj (hleft.symm.trans hleft')
            obtain rfl := Except.ok.inj (hright.symm.trans hright')
            exact hreadable
          · intro left' right' hleft' hright'
            obtain rfl := Except.ok.inj (hleft.symm.trans hleft')
            obtain rfl := Except.ok.inj (hright.symm.trans hright')
            exact hcounted
      rw [heven]
      by_cases hmine : ∀ file ∈ sharedSpellings left right, Readable occupancy one other file
      · by_cases htheirs : ∀ file ∈ sharedSpellings right left, Readable occupancy one other file
        · rw [overlappingFiles_readable hleft hright hmine,
            overlappingFiles_readable hright hleft (hsymm.mpr htheirs), Option.map_some,
            Option.map_some, Option.some.injEq, ConflictDetector.verdictOf_marks_iff hintent]
          simp only [ConflictDetector.worth, length_named, mul_eq_mul_right_iff, Nat.cast_inj]
          exact ⟨fun h => ⟨iff_of_true hmine htheirs, fun _ kind hkind => (h kind hkind).symm⟩,
            fun h kind hkind => (h.2 hmine kind hkind).symm⟩
        · rw [overlappingFiles_readable hleft hright hmine,
            overlappingFiles_unreadable hright hleft (fun h => htheirs (hsymm.mp h)),
            Option.map_some, Option.map_none]
          exact ⟨fun h => absurd h (Option.some_ne_none _),
            fun h => absurd (h.1.mp hmine) htheirs⟩
      · by_cases htheirs : ∀ file ∈ sharedSpellings right left, Readable occupancy one other file
        · rw [overlappingFiles_unreadable hleft hright hmine,
            overlappingFiles_readable hright hleft (hsymm.mpr htheirs), Option.map_none,
            Option.map_some]
          exact ⟨fun h => absurd h.symm (Option.some_ne_none _),
            fun h => absurd (h.1.mpr htheirs) hmine⟩
        · rw [overlappingFiles_unreadable hleft hright hmine,
            overlappingFiles_unreadable hright hleft (fun h => htheirs (hsymm.mp h)),
            Option.map_none, Option.map_none]
          exact ⟨fun _ => ⟨iff_of_false hmine htheirs, fun h => absurd h hmine⟩, fun _ => rfl⟩

/-! ## assessAll -/

namespace ConflictDetector

def assessAll [Printer] (self : ConflictDetector) (occupancy : Option FileOccupancy)
    (intentAssessment : Option IntentConflictAssessment) :
    List AgentPlan → Except PathError (List ConflictAssessment)
  | [] => .ok []
  | plan :: plans => do
    let found ← plans.mapM fun other => self.assess plan other occupancy intentAssessment
    return found.reduceOption ++ (← assessAll self occupancy intentAssessment plans)

end ConflictDetector

abbrev Findings := Multiset (Sym2 String × Verdict)

/-- What assessments say of each pair; `⊤` where one threw. -/
def findings (assessed : Except PathError (List ConflictAssessment)) : WithTop Findings :=
  match assessed with
  | .error _ => ⊤
  | .ok assessments =>
    (Multiset.ofList (assessments.map fun assessment =>
      (s(assessment.taskIds.1, assessment.taskIds.2), verdict assessment)) : Findings)

def finding [Printer] (self : ConflictDetector) (occupancy : Option FileOccupancy)
    (intentAssessment : Option IntentConflictAssessment) (first second : AgentPlan) :
    WithTop Findings :=
  findings ((self.assess first second occupancy intentAssessment).map Option.toList)

omit [TextRuntime] in
theorem findings_append (found : List ConflictAssessment)
    (rest : Except PathError (List ConflictAssessment)) :
    findings (rest.map fun rest => found ++ rest) = findings (.ok found) + findings rest := by
  cases rest with
  | error e => exact (WithTop.add_top _).symm
  | ok rest =>
    unfold findings
    simp only [Except.map, List.map_append, ← Multiset.coe_add, WithTop.coe_add]

omit [TextRuntime] in
theorem findings_mapM (assess : AgentPlan → Except PathError (Option ConflictAssessment))
    (plans : List AgentPlan) :
    findings ((plans.mapM assess).map List.reduceOption) =
      (plans.map fun plan => findings ((assess plan).map Option.toList)).sum := by
  induction plans with
  | nil => rfl
  | cons plan plans ih =>
    rw [List.mapM_cons, List.map_cons, List.sum_cons, ← ih]
    cases assess plan with
    | error e => exact (WithTop.top_add _).symm
    | ok assessment =>
      show _ = findings (.ok assessment.toList) + _
      rw [← findings_append]
      cases plans.mapM assess with
      | error e => rfl
      | ok found => cases assessment <;> rfl

/-- The sum over the pairs of a list, the first of each before the second. -/
def pairSum {α M : Type} [AddCommMonoid M] (term : α → α → M) : List α → M
  | [] => 0
  | x :: xs => (xs.map (term x)).sum + pairSum term xs

omit [TextRuntime] in
/-- **A sum over pairs does not depend on their order** when no pair's term does. -/
theorem pairSum_perm {α M : Type} [AddCommMonoid M] {term : α → α → M} {xs ys : List α}
    (h : xs.Perm ys) (hcomm : ∀ x ∈ xs, ∀ y ∈ xs, term x y = term y x) :
    pairSum term xs = pairSum term ys := by
  induction h with
  | nil => rfl
  | cons x hperm ih =>
    rw [pairSum, pairSum, (hperm.map (term x)).sum_eq,
      ih fun y hy z hz => hcomm y (.tail _ hy) z (.tail _ hz)]
  | swap x y l =>
    rw [pairSum, pairSum, pairSum, pairSum, List.map_cons, List.map_cons, List.sum_cons,
      List.sum_cons, hcomm y List.mem_cons_self x (.tail _ List.mem_cons_self)]
    ac_rfl
  | trans hfirst hsecond ihfirst ihsecond =>
    rw [ihfirst hcomm, ihsecond fun x hx y hy =>
      hcomm x (hfirst.mem_iff.mpr hx) y (hfirst.mem_iff.mpr hy)]

theorem findings_assessAll [Printer] (self : ConflictDetector) (occupancy : Option FileOccupancy)
    (intentAssessment : Option IntentConflictAssessment) (plans : List AgentPlan) :
    findings (self.assessAll occupancy intentAssessment plans) =
      pairSum (finding self occupancy intentAssessment) plans := by
  induction plans with
  | nil => rfl
  | cons plan plans ih =>
    rw [pairSum, ← ih, ConflictDetector.assessAll]
    unfold finding
    rw [← findings_mapM]
    cases plans.mapM fun other => self.assess plan other occupancy intentAssessment with
    | error e => exact (WithTop.top_add _).symm
    | ok found =>
      show _ = findings (.ok found.reduceOption) + _
      rw [← findings_append]
      cases self.assessAll occupancy intentAssessment plans <;> rfl

theorem finding_eq [Printer] (self : ConflictDetector) (occupancy : Option FileOccupancy)
    (intentAssessment : Option IntentConflictAssessment) (first second : AgentPlan) :
    finding self occupancy intentAssessment first second =
      match outcome (self.assess first second occupancy intentAssessment) with
      | none => ⊤
      | some none => 0
      | some (some verdict) =>
        (Multiset.ofList [(s(first.taskId, second.taskId), verdict)] : Findings) := by
  unfold finding
  cases hassess : self.assess first second occupancy intentAssessment with
  | error e => rfl
  | ok assessment =>
    cases assessment with
    | none => rfl
    | some assessment =>
      have htasks := assess_taskIds hassess
      have hfirst : first.taskId = assessment.taskIds.1 := (congrArg Prod.fst htasks).symm
      have hsecond : second.taskId = assessment.taskIds.2 := (congrArg Prod.snd htasks).symm
      rw [hfirst, hsecond]
      rfl

theorem preferredOrder_comm (first second : AgentPlan) :
    Waves.preferredOrder first second = Waves.preferredOrder second first := by
  unfold Waves.preferredOrder
  cases Waves.consumes first second with
  | true => cases Waves.consumes second first <;> rfl
  | false => cases Waves.consumes second first <;> rfl

theorem finding_comm [Printer] {self : ConflictDetector} {occupancy : Option FileOccupancy}
    {intentAssessment : Option IntentConflictAssessment} {first second : AgentPlan}
    (h : outcome (self.assess first second occupancy intentAssessment) =
      outcome (self.assess second first occupancy intentAssessment)) :
    finding self occupancy intentAssessment first second =
      finding self occupancy intentAssessment second first := by
  rw [finding_eq, finding_eq, h, Sym2.eq_swap]

/-- **Assessment is symmetric on plans that spell what they share evenly, and on no others**;
of such plans `assessAll` says the same of each pair in whatever order they come. What
depends on which is seen the same from either side, for any two plans. -/
theorem assess_symmetric_iff [Printer] (self : ConflictDetector)
    (occupancy : Option FileOccupancy) {intentAssessment : Option IntentConflictAssessment}
    (h : IntentSymmetric intentAssessment) :
    (∀ first second,
      outcome (self.assess first second occupancy intentAssessment) =
            outcome (self.assess second first occupancy intentAssessment) ∧
          Waves.preferredOrder first second = Waves.preferredOrder second first ↔
        EvenlySpelled self occupancy (completed first) (completed second)) ∧
      ∀ plans plans' : List AgentPlan, plans.Perm plans' →
        (∀ first ∈ plans, ∀ second ∈ plans,
          EvenlySpelled self occupancy (completed first) (completed second)) →
        findings (self.assessAll occupancy intentAssessment plans) =
          findings (self.assessAll occupancy intentAssessment plans') := by
  have hpair := fun first second => outcome_comm_iff self first second occupancy h
  refine ⟨fun first second => ?_, fun plans plans' hperm heven => ?_⟩
  · rw [← hpair]
    exact and_iff_left (preferredOrder_comm first second)
  · rw [findings_assessAll, findings_assessAll]
    refine pairSum_perm hperm fun first hfirst second hsecond => ?_
    exact finding_comm ((hpair first second).mpr (heven first hfirst second hsecond))

end

def symbolPlan (taskId : String) (symbols : List String) : AgentPlan where
  taskId
  objective := taskId
  expectedFiles := []
  expectedSymbols := symbols

theorem assess_symmetric_iff_oneSpelling :
    outcome (@ConflictDetector.assess asciiRuntime wholePrinter .default
        (symbolPlan "one" ["Total"]) (symbolPlan "two" ["total"]) none none) =
      outcome (@ConflictDetector.assess asciiRuntime wholePrinter .default
        (symbolPlan "two" ["total"]) (symbolPlan "one" ["Total"]) none none) := by
  have hsymmetric : IntentSymmetric none := fun _ h => by cases h
  refine (((@assess_symmetric_iff asciiRuntime wholePrinter .default none none hsymmetric).1
    (symbolPlan "one" ["Total"]) (symbolPlan "two" ["total"])).mpr
      (@EvenlySpelled.mk asciiRuntime _ _ _ _ ?_ ?_)).1
  · rintro _ _ ⟨⟩ ⟨⟩
    exact iff_of_true (fun _ _ _ h => by cases h) (fun _ _ _ h => by cases h)
  · rintro _ _ ⟨⟩ ⟨⟩ - kind hkind
    refine .inr ?_
    revert kind
    decide

/-- **A plan that spells a symbol twice scores twice as much from its own side.** -/
theorem assess_not_symmetric :
    ¬∀ (occupancy : Option FileOccupancy) (intentAssessment : Option IntentConflictAssessment),
      IntentSymmetric intentAssessment → ∀ first second : AgentPlan,
        outcome (@ConflictDetector.assess asciiRuntime wholePrinter .default first second
            occupancy intentAssessment) =
          outcome (@ConflictDetector.assess asciiRuntime wholePrinter .default second first
            occupancy intentAssessment) := by
  intro h
  have hscores : outcome (@ConflictDetector.assess asciiRuntime wholePrinter .default
        (symbolPlan "one" ["Total", "total"]) (symbolPlan "two" ["total"]) none none) ≠
      outcome (@ConflictDetector.assess asciiRuntime wholePrinter .default
        (symbolPlan "two" ["total"]) (symbolPlan "one" ["Total", "total"]) none none) := by
    decide +kernel
  exact hscores (h none none (fun _ h => by cases h) _ _)

end AgenticGit.Coordinator
