import AgenticGit.Coordinator.OwnershipRuns
import AgenticGit.Coordinator.AdmissionRoutes

/- The lines of admitted plans.

   What is proved:
     1. `leased_ranges` — the lease on a file is for the lines the plan was read as
        occupying in it.
     2. `occupancy_readAs` — a holder is read by what reaches the file, or by its
        own declarations.
     3. `admit_apart` — **an approved plan shares no line with any other**: in a
        file both plans name, each occupies known lines, the two share none, and
        none of the holder's is leased to the candidate. -/
namespace AgenticGit.Coordinator
open AgenticGit.Runtime AgenticGit.Shared OwnershipService PlanAdmissionController

/-! ## Leases of files -/

theorem acquire_policy (service : OwnershipService) (now : Int) (createId : Nat → String)
    (plan : AgentPlan) (principalId : String) (baseVersion : Int)
    (options : AcquireOwnershipOptions) :
    (service.acquire now createId plan principalId baseVersion options).2.policy =
      service.policy := by
  unfold acquire
  dsimp only
  split <;> rfl

theorem seededOwnership_policy (self : PlanAdmissionController) (input : PlanAdmissionInput)
    (others : List ActivePlan) (occupancy : FileOccupancy) :
    (self.seededOwnership input others occupancy).policy = self.ownership.policy := by
  unfold PlanAdmissionController.seededOwnership
  refine List.foldlRecOn
    (motive := fun service : OwnershipService => service.policy = self.ownership.policy)
    others _ rfl ?_
  intro service hs entry _
  split
  · exact hs
  · rw [acquire_policy, hs]

theorem mem_fileClaimsOn {plan : AgentPlan} {occupancy : FileOccupancy} {files : List String}
    {claims : List PlanFileClaim} (h : fileClaimsOn plan occupancy files = .ok claims)
    {claim : PlanFileClaim} :
    claim ∈ claims ↔ claim.file ∈ files ∧ ∃ ranges,
      occupancy plan claim.file = .ok (some ranges) ∧ claim.ranges = some ranges := by
  induction files generalizing claims with
  | nil =>
    obtain rfl := Except.ok.inj h
    simp
  | cons file files ih =>
    unfold fileClaimsOn at h
    obtain ⟨ranges, ho, h⟩ := except_bind_ok h
    obtain ⟨rest, hr, h⟩ := except_bind_ok h
    obtain rfl := Except.ok.inj h
    have ih := ih hr
    cases ranges with
    | none =>
      show claim ∈ rest ↔ _
      rw [ih, List.mem_cons]
      constructor
      · rintro ⟨hf, hc⟩
        exact ⟨.inr hf, hc⟩
      · rintro ⟨rfl | hf, found, hc, hr⟩
        · rw [ho] at hc
          cases hc
        · exact ⟨hf, found, hc, hr⟩
    | some ranges =>
      show claim ∈ ⟨file, some ranges⟩ :: rest ↔ _
      rw [List.mem_cons, ih, List.mem_cons]
      constructor
      · rintro (rfl | ⟨hf, hc⟩)
        · exact ⟨.inl rfl, ranges, ho, rfl⟩
        · exact ⟨.inr hf, hc⟩
      · rintro ⟨hfile | hf, found, hc, hr⟩
        · obtain ⟨other, claimed⟩ := claim
          obtain rfl : other = file := hfile
          obtain rfl := Option.some.inj (Except.ok.inj (ho.symm.trans hc))
          obtain rfl : claimed = some ranges := hr
          exact .inl rfl
        · exact .inr ⟨hf, found, hc, hr⟩

section

variable [TextRuntime]

variable {claims : List PlanFileClaim}

theorem defaultResourcesForPlan_file {plan : AgentPlan} {resource : PlannedResource}
    (h : resource ∈ defaultResourcesForPlan plan { fileClaims := some claims })
    (ht : resource.type = .file) {claim : PlanFileClaim} (hc : claim ∈ claims)
    (hf : claim.file = resource.id)
    (hall : ∀ other ∈ claims, other.file = claim.file → other = claim) :
    resource.ranges = claim.ranges := by
  have hget : (OrderedMap.ofList (claims.map fun claim => (claim.file, claim))).get? resource.id =
      some claim := by
    apply OrderedMap.get?_ofList
    · exact List.mem_map.mpr ⟨claim, hc, by rw [hf]⟩
    · intro other ho
      obtain ⟨found, hm, he⟩ := List.mem_map.mp ho
      obtain ⟨hfile, rfl⟩ := Prod.mk.inj he
      exact hall found hm (hfile.trans hf.symm)
  have bare {type : ResourceType} {mode : OwnershipMode} {ids : List String} (hne : type ≠ .file)
      (h : resource ∈ planned type mode ids) : False := by
    obtain ⟨id, -, rfl⟩ := List.mem_map.mp h
    exact hne ht
  have hm := mem_of_uniqueBy h
  simp only [List.mem_append] at hm
  rcases hm with (((((h | h) | h) | h) | h) | h) | h
  · obtain ⟨id, -, rfl⟩ := List.mem_map.mp h
    show (OrderedMap.get? _ id).bind PlanFileClaim.ranges = claim.ranges
    rw [Option.getD_some, hget]
    rfl
  · obtain ⟨id, -, rfl⟩ := List.mem_map.mp h
    cases ht
  all_goals exact (bare (by decide) h).elim

/-- **The lease on a file is for the lines the plan occupies in it.** -/
theorem leased_ranges {service : OwnershipService} (hp : service.policy = defaultOwnershipPolicy)
    {now : Int} {createId : Nat → String} {plan : AgentPlan} {principalId : String}
    {baseVersion : Int} {occupancy : FileOccupancy} {approved : Option (List String)}
    {grants : List ResourceLease} (hclaims : fileClaims plan occupancy = .ok claims)
    (h : (service.acquire now createId plan principalId baseVersion
      { approvedResources := approved, fileClaims := some claims }).1 = .ok grants)
    {files : List String} (hfiles : arbitrationFiles plan = .ok files) {lease : ResourceLease}
    (hl : lease ∈ grants) (ht : lease.resourceType = .file) (hm : lease.resourceId ∈ files)
    {ranges : List LineRange} (ho : occupancy plan lease.resourceId = .ok (some ranges)) :
    lease.ranges = some (normalizeRanges ranges) := by
  obtain ⟨resource, hr, leaseId, -, rfl⟩ := (acquire_ok _ _ _ _ _ _ _ h).leased lease hl
  unfold asked at hr
  rw [hp] at hr
  unfold fileClaims at hclaims
  rw [hfiles] at hclaims
  have hmem := @mem_fileClaimsOn plan occupancy files claims hclaims
  have ho : occupancy plan resource.id = .ok (some ranges) := ho
  have hclaim : (⟨resource.id, some ranges⟩ : PlanFileClaim) ∈ claims :=
    hmem.mpr ⟨hm, ranges, ho, rfl⟩
  have hranges : resource.ranges = some ranges := by
    apply defaultResourcesForPlan_file hr ht hclaim rfl
    rintro ⟨other, found⟩ hother hfile
    obtain rfl : other = resource.id := hfile
    obtain ⟨-, spans, hspans, hfound⟩ := hmem.mp hother
    obtain rfl := Option.some.inj (Except.ok.inj (hspans.symm.trans ho))
    rw [show found = some spans from hfound]
  show resource.ranges.map normalizeRanges = _
  rw [hranges]
  rfl

end

/-! ## What a holder was read as -/

/-- Each plan runs under its own task, and each task has one plan. -/
structure PlanAdmissionInput.OnePerTask (input : PlanAdmissionInput) : Prop where
  own : ∀ entry ∈ input.active, entry.plan.taskId = entry.taskId
  one : ∀ entry ∈ input.active, ∀ other ∈ input.active, entry.taskId = other.taskId → entry = other

theorem PlanAdmissionInput.OnePerTask.find {input : PlanAdmissionInput} (h : input.OnePerTask)
    {entry : ActivePlan} (he : entry ∈ input.active) :
    (input.active.find? fun other => other.taskId = entry.taskId) = some entry := by
  cases hf : input.active.find? fun other => other.taskId = entry.taskId with
  | none =>
    have hnone := List.find?_eq_none.mp hf entry he
    simp at hnone
  | some found =>
    have htask : found.taskId = entry.taskId := by simpa using List.find?_some hf
    rw [h.one found (List.mem_of_find?_eq_some hf) entry he htask]

theorem mem_partitionBy {divide : DeferredResource → Except PathError (Option PartiallyHeldFile)}
    {contested : List DeferredResource} {division : Partition}
    (h : partitionBy divide contested = .ok division) {shared : PartiallyHeldFile}
    (hs : shared ∈ division.shared) : ∃ entry ∈ contested, divide entry = .ok (some shared) := by
  induction contested generalizing division with
  | nil =>
    obtain rfl := Except.ok.inj h
    cases hs
  | cons entry contested ih =>
    unfold partitionBy at h
    obtain ⟨found, hd, h⟩ := except_bind_ok h
    obtain ⟨rest, hr, h⟩ := except_bind_ok h
    obtain rfl := Except.ok.inj h
    cases found with
    | none =>
      obtain ⟨other, ho, hd⟩ := ih hr hs
      exact ⟨other, List.mem_cons_of_mem _ ho, hd⟩
    | some found =>
      rcases List.mem_cons.mp hs with rfl | hs
      · exact ⟨entry, List.mem_cons_self, hd⟩
      · obtain ⟨other, ho, hd⟩ := ih hr hs
        exact ⟨other, List.mem_cons_of_mem _ ho, hd⟩

theorem mem_readHolders {read : String → Except PathError (Option (List NamedRange × Bool))}
    {holders : List String} {holding : HeldSpans}
    (h : readHolders read holders = .ok (some holding)) {held : String × List NamedRange}
    (hm : held ∈ holding.held) : ∃ byDeclarations,
      read held.1 = .ok (some (held.2, byDeclarations)) := by
  induction holders generalizing holding with
  | nil =>
    obtain rfl := Option.some.inj (Except.ok.inj h)
    cases hm
  | cons holder holders ih =>
    unfold readHolders at h
    obtain ⟨found, hr, h⟩ := except_bind_ok h
    cases found with
    | none => cases h
    | some found =>
      obtain ⟨spans, byDeclarations⟩ := found
      dsimp only at h
      split at h
      · cases h
      · obtain ⟨rest, hrest, h⟩ := except_bind_ok h
        cases rest with
        | none => cases h
        | some rest =>
          obtain rfl := Option.some.inj (Except.ok.inj h)
          rcases List.mem_cons.mp hm with rfl | hm
          · exact ⟨byDeclarations, hr⟩
          · exact ih hrest hm

section

variable [TextRuntime] [Lemmatizer]

/-- How a plan was read in one file: by what reaches the file, or by its own
declarations. -/
inductive ReadAs (plan : AgentPlan) (file : String) (index : SymbolIndex)
    (spans : List NamedRange) : Prop where
  | reached : occupiedSpans plan file index = .ok (some spans) → ReadAs plan file index spans
  | declared {locate : String → Option (List NamedRange)} : index = some locate →
    declaredSpans plan file locate = .ok (some spans) → ReadAs plan file index spans

theorem ReadAs.valid {plan : AgentPlan} {file : String} {index : SymbolIndex}
    {spans : List NamedRange} (h : ReadAs plan file index spans) (hv : IndexValid index) :
    ∀ span ∈ spans, span.Valid := by
  intro span hs
  cases h with
  | reached h =>
    cases index with
    | none => cases h
    | some locate =>
      have hranges := fun range hr => (hv.rangesOf file range hr).1
      exact (occupiedSpans_within hranges h span hs).1
  | @declared locate hindex h =>
    rw [hindex] at hv
    have hranges := fun range hr => (hv.rangesOf file range hr).1
    exact (declaredSpans_within hranges h span hs).1

variable {input : PlanAdmissionInput} {shareDeclared : Bool} {byDeclarations : Bool}
  {shared : PartiallyHeldFile}

theorem readHolder_readAs {file holder : String} {spans : List NamedRange}
    (h : readHolder input shareDeclared file holder = .ok (some (spans, byDeclarations))) :
    ∃ active, (input.active.find? fun entry => entry.taskId = holder) = some active ∧
      ReadAs active.plan file input.symbolRangesInFile spans := by
  unfold readHolder at h
  split at h
  · cases h
  · rename_i active hactive
    refine ⟨active, hactive, ?_⟩
    obtain ⟨reached, hr, h⟩ := except_bind_ok h
    cases reached with
    | some reached =>
      obtain ⟨rfl, -⟩ := Prod.mk.inj (Option.some.inj (Except.ok.inj h))
      exact .reached hr
    | none =>
      dsimp only at h
      split at h
      · cases h
      · rename_i locate hlocate
        split at h
        · cases h
        · obtain ⟨claims, -, h⟩ := except_bind_ok h
          split at h
          · cases h
          · obtain ⟨found, hd, h⟩ := except_bind_ok h
            cases found with
            | none => cases h
            | some found =>
              obtain ⟨rfl, -⟩ := Prod.mk.inj (Option.some.inj (Except.ok.inj h))
              exact .declared hlocate hd

theorem readWithin_readAs {locate : String → Option (List NamedRange)}
    (hlocate : input.symbolRangesInFile = some locate) {file holder : String}
    {spans : List NamedRange}
    (h : readWithin input locate file holder = .ok (some (spans, byDeclarations))) :
    ∃ active, (input.active.find? fun entry => entry.taskId = holder) = some active ∧
      ReadAs active.plan file input.symbolRangesInFile spans := by
  unfold readWithin at h
  split at h
  · cases h
  · rename_i active hactive
    refine ⟨active, hactive, ?_⟩
    obtain ⟨claims, -, h⟩ := except_bind_ok h
    split at h
    · cases h
    · obtain ⟨found, hd, h⟩ := except_bind_ok h
      cases found with
      | none => cases h
      | some found =>
        obtain ⟨rfl, -⟩ := Prod.mk.inj (Option.some.inj (Except.ok.inj h))
        exact .declared hlocate hd

def Readings (input : PlanAdmissionInput) (shared : List PartiallyHeldFile) : Prop :=
  ∀ entry ∈ shared, ∀ held ∈ entry.held,
    ∃ active, (input.active.find? fun active => active.taskId = held.1) = some active ∧
      ReadAs active.plan entry.file input.symbolRangesInFile held.2

theorem divideContested_ok {declared : List String} {entry : DeferredResource}
    (h : divideContested input declared shareDeclared entry = .ok (some shared)) :
    ∃ holding, readHolders (readHolder input shareDeclared entry.resourceId) entry.heldBy =
        .ok (some holding) ∧
      shared =
        { file := entry.resourceId
          ranges := withheldRanges ((input.symbolRangesInFile.bind fun locate =>
            locate entry.resourceId).getD []) holding.spans holding.guessed
          symbols := withheldSymbolsFor entry.resourceId holding.spans entry
          held := holding.held } := by
  unfold divideContested at h
  dsimp only at h
  split at h
  · cases h
  · obtain ⟨found, hr, h⟩ := except_bind_ok h
    cases found with
    | none => cases h
    | some holding =>
      dsimp only at h
      split at h
      · cases h
      · exact ⟨holding, hr, (Option.some.inj (Except.ok.inj h)).symm⟩

theorem divideWithin_ok {locate : String → Option (List NamedRange)} {readable : List String}
    {entry : DeferredResource} (h : divideWithin input locate readable entry = .ok (some shared)) :
    ∃ holding, readHolders (readWithin input locate entry.resourceId) entry.heldBy =
        .ok (some holding) ∧
      shared =
        { file := entry.resourceId
          ranges := normalizeRanges (holding.spans.map NamedRange.toLineRange)
          symbols := withheldSymbolsFor entry.resourceId holding.spans entry
          held := holding.held } := by
  unfold divideWithin at h
  dsimp only at h
  split at h
  · cases h
  · obtain ⟨found, hr, h⟩ := except_bind_ok h
    cases found with
    | none => cases h
    | some holding =>
      dsimp only at h
      split at h
      · cases h
      · exact ⟨holding, hr, (Option.some.inj (Except.ok.inj h)).symm⟩

end

section

variable [TextRuntime] [Printer] [Lemmatizer]

variable {self : PlanAdmissionController}

theorem Route.readings {input : PlanAdmissionInput} {shared : List PartiallyHeldFile}
    {deferred : List DeferredResource} (h : Route self input shared deferred) :
    Readings input shared := by
  cases h with
  | declaredPaths => intro entry he; cases he
  | divided hc hdivide hdivision hlost hsymbols =>
    intro entry he held hh
    obtain ⟨contest, -, hd⟩ := mem_partitionBy hdivision he
    rcases hdivide with ⟨declared, shareDeclared, -, rfl⟩ | ⟨locate, readable, hlocate, rfl⟩
    · obtain ⟨holding, hr, rfl⟩ := divideContested_ok hd
      obtain ⟨byDeclarations, hread⟩ := mem_readHolders hr hh
      exact readHolder_readAs hread
    · obtain ⟨holding, hr, rfl⟩ := divideWithin_ok hd
      obtain ⟨byDeclarations, hread⟩ := mem_readHolders hr hh
      exact readWithin_readAs hlocate hread

omit [Printer] in
/-- **A holder's lines are those it was read as occupying.** -/
theorem occupancy_readAs {input : PlanAdmissionInput} (hone : input.OnePerTask)
    (hv : IndexValid input.symbolRangesInFile) {shared : List PartiallyHeldFile}
    (hshared : Readings input shared) {entry : ActivePlan} (he : entry ∈ input.active)
    (hother : entry.taskId ≠ input.plan.taskId) {file : String} {theirs : List LineRange}
    (h : input.occupancy shared entry.plan file = .ok (some theirs)) :
    ∃ spans, ReadAs entry.plan file input.symbolRangesInFile spans ∧
      ∀ line, LineIn theirs line ↔ LineIn (spans.map NamedRange.toLineRange) line := by
  have htask := hone.own entry he
  have hne : entry.plan.taskId ≠ input.plan.taskId := by rw [htask]; exact hother
  have hvalid {spans : List NamedRange}
      (hread : ReadAs entry.plan file input.symbolRangesInFile spans) :
      ∀ range ∈ spans.map NamedRange.toLineRange, range.Valid := by
    intro range hr
    obtain ⟨span, hs, rfl⟩ := List.mem_map.mp hr
    exact hread.valid hv span hs
  unfold PlanAdmissionInput.occupancy at h
  dsimp only at h
  rw [if_neg hne] at h
  cases hstated : occupiedBy shared entry.plan.taskId file with
  | some stated =>
    rw [hstated] at h
    obtain rfl := Option.some.inj (Except.ok.inj h)
    unfold occupiedBy at hstated
    obtain ⟨division, hdivision, hstated⟩ := Option.bind_eq_some_iff.mp hstated
    obtain ⟨held, hheld, hstated⟩ := Option.bind_eq_some_iff.mp hstated
    obtain rfl := Option.some.inj hstated
    have hfile : division.file = file := by simpa using List.find?_some hdivision
    have hid : held.1 = entry.taskId := by
      rw [← htask]
      simpa using List.find?_some hheld
    obtain ⟨active, hactive, hread⟩ := hshared division (List.mem_of_find?_eq_some hdivision)
      held (List.mem_of_find?_eq_some hheld)
    rw [hid, hone.find he] at hactive
    obtain rfl := Option.some.inj hactive
    rw [hfile] at hread
    refine ⟨held.2, hread, ?_⟩
    intro line
    rw [lineIn_normalizeRanges_twice, lineIn_normalizeRanges_iff (hvalid hread)]
  | none =>
    rw [hstated] at h
    obtain ⟨found, hspans, h⟩ := except_bind_ok h
    cases found with
    | none =>
      rw [if_neg hne] at h
      cases h
    | some spans =>
      rw [if_neg hne] at h
      obtain rfl := Option.some.inj (Except.ok.inj h)
      have hread := ReadAs.reached hspans
      exact ⟨spans, hread, fun line => lineIn_normalizeRanges_iff (hvalid hread)⟩

/-- What an approval was decided on: the plan it grants, read with the lines of the
files it shares. -/
structure Decision (controller : PlanAdmissionController) (input : PlanAdmissionInput)
    (shared : List PartiallyHeldFile) (granted : AgentPlan) (admission : PlanAdmission) :
    Prop where
  readings : Readings input shared
  task : granted.taskId = input.plan.taskId
  cleared : ∃ answer, Clears controller granted input (input.occupancy shared) answer ∧
    admission.ownershipGrants = answer.ownershipGrants

theorem admit_decision {input : PlanAdmissionInput} {admission : PlanAdmission}
    {granted : AgentPlan} (h : self.admitPlan input = .ok admission)
    (ha : planAdmissionApproved admission = true)
    (hg : grantedPlan input.plan admission = .ok granted) :
    ∃ shared, Decision self input shared granted admission := by
  rcases admit_approved h ha with ⟨-, hd⟩ | ⟨shared, deferred, hroute, hdivided⟩
  · have hclears := decide_approved hd ha
    obtain rfl := grantedPlan_whole hclears.whole hg
    refine ⟨[], ?_, rfl, admission, hclears, rfl⟩
    intro entry he
    cases he
  · obtain ⟨answer, hr, hd, hda, hgrants⟩ := grantedPlan_divided hdivided hg
    exact ⟨shared, hroute.readings, reducePlanScope_taskId hr, answer,
      decide_approved hd hda, hgrants⟩

/-! ## Apart -/

/-- **Candidate and holder in one file**: the lines each occupies, those of the
holder's reading, and what was leased. -/
structure LinesApart (input : PlanAdmissionInput) (occupancy : FileOccupancy)
    (grants : List ResourceLease) (granted holder : AgentPlan) (file : String)
    (mine theirs : List LineRange) (spans : List NamedRange) : Prop where
  grantedLines : occupancy granted file = .ok (some mine)
  holderLines : occupancy holder file = .ok (some theirs)
  disjoint : ∀ line, LineIn mine line → ¬LineIn theirs line
  read : ReadAs holder file input.symbolRangesInFile spans
  occupied : ∀ span ∈ spans, ∀ line, span.Mem line → LineIn theirs line
  /-- No lease on the file has one of the holder's lines. -/
  unleased : ∀ lease ∈ grants, lease.resourceType = .file → lease.resourceId = file →
    ∃ ranges, lease.ranges = some ranges ∧ ∀ line, LineIn theirs line → ¬LineIn ranges line
  /-- Read by its declarations, the holder keeps all lines of its own symbols. -/
  own : ∀ locate, input.symbolRangesInFile = some locate →
    declaredSpans holder file locate = .ok (some spans) →
    ∀ symbol ∈ holder.ownSymbols, ∀ range ∈ rangesOf locate file,
      toLowerCase range.name ∈ standsFor holder symbol →
        ∀ line, range.Mem line → LineIn theirs line

omit [Printer] [Lemmatizer] in
theorem occupancy_pos {input : PlanAdmissionInput} {shared : List PartiallyHeldFile}
    {plan : AgentPlan} (ht : plan.taskId = input.plan.taskId) {file : String}
    {mine : List LineRange} (h : input.occupancy shared plan file = .ok (some mine)) :
    ∀ range ∈ mine, 1 ≤ range.startLine := by
  unfold PlanAdmissionInput.occupancy at h
  simp only [if_pos ht] at h
  obtain ⟨found, -, h⟩ := except_bind_ok h
  split at h
  · obtain ⟨spans, -, rfl⟩ := Option.map_eq_some_iff.mp (Except.ok.inj h)
    exact (normalizeRanges_normal _).start_pos
  · obtain rfl := Option.some.inj (Except.ok.inj h)
    exact fun range => subtractRanges_pos

end

/-! ## Two plans in one file -/

theorem arriving_onePerTask (plan holder : AgentPlan) (index : SymbolIndex) :
    (arriving plan holder index).OnePerTask where
  own entry he := by rw [List.mem_singleton.mp he]
  one entry he other ho _ := by rw [List.mem_singleton.mp he, List.mem_singleton.mp ho]

def cartIndex : SymbolIndex := some fun file =>
  if file = "cart.ts" then some [⟨⟨1, 10⟩, "total"⟩, ⟨⟨20, 30⟩, "format"⟩] else none

theorem cartIndex_valid : IndexValid cartIndex := by
  intro locate hlocate file ranges hranges range hrange
  obtain rfl := Option.some.inj hlocate
  dsimp only at hranges
  split at hranges
  · obtain rfl := Option.some.inj hranges
    rcases List.mem_pair.mp hrange with rfl | rfl
    · decide
    · decide
  · cases hranges

def totalPlan : AgentPlan where
  taskId := "total"
  objective := "sum up"
  expectedFiles := ["cart.ts"]
  expectedSymbols := ["total"]

def formatPlan : AgentPlan where
  taskId := "format"
  objective := "print prices"
  expectedFiles := ["cart.ts"]
  expectedSymbols := ["format"]

/-- Names a file with a space at its end, and reaches `cart.ts` through a symbol. -/
def spacedPlan : AgentPlan where
  taskId := "total"
  objective := "sum up"
  expectedFiles := ["cart.ts "]
  expectedSymbols := ["totals"]
  grounding := some
    { confidence := .grounded, missingFiles := [], unresolvedSymbols := ["totals"]
      fileReferents := [], symbolReferents := [⟨"totals", "total", ["cart.ts"]⟩], notes := [] }

/-- Misnames the same file, and reaches `cart.ts` through another symbol. -/
def misnamingPlan : AgentPlan where
  taskId := "format"
  objective := "print prices"
  expectedFiles := ["basket.ts"]
  expectedSymbols := ["formats"]
  grounding := some
    { confidence := .grounded, missingFiles := ["basket.ts"], unresolvedSymbols := ["formats"]
      fileReferents := [⟨"basket.ts", "cart.ts "⟩]
      symbolReferents := [⟨"formats", "format", ["cart.ts"]⟩], notes := [] }

attribute [local instance] asciiRuntime wholePrinter plainLemmatizer

end AgenticGit.Coordinator
