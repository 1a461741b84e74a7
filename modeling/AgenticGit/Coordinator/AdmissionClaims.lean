import AgenticGit.Coordinator.AdmissionLines

/- Claims, and what is granted next to one.

   What is proved:
     1. `contestedFiles_claimed` — a declared file a claim occupies is contested, by
        its holder among others.
     2. `Route.claimed` — **no route shares a file a claim occupies**: its holder has
        no lines in it that could be told from the rest.
     3. `claim_never_granted` — an approval grants no declared file a claim occupies,
        and no misname of one whose name has no space around it. -/
namespace AgenticGit.Coordinator
open AgenticGit.Runtime AgenticGit.Shared PlanAdmissionController

/-! ## Claims -/

/-- A claim on files its holder declares: frozen ones, or ones it held without naming
them. -/
inductive LiveClaim (plan : AgentPlan) : Prop where
  | frozen {directories : List String} : plan.claim = some (.frozen directories) → LiveClaim plan
  | declared {held : List String} : plan.claim = some (.declared held) →
    (∀ file ∈ held, file ∈ plan.expectedFiles) → LiveClaim plan

theorem LiveClaim.kind {plan : AgentPlan} (h : LiveClaim plan) :
    ∃ kind, heldClaimKind plan = some kind := by
  unfold heldClaimKind
  cases h with
  | frozen hc => exact ⟨"frozen", by rw [hc]⟩
  | declared hc hheld => exact ⟨"declared", by rw [hc]⟩

theorem LiveClaim.declares {plan : AgentPlan} (h : LiveClaim plan)
    (hfiles : Canonical plan.expectedFiles) {file : String}
    (ho : claimOccupiesPath plan file = .ok true) :
    file ∈ plan.expectedFiles ∧ normalizeRepositoryPath file = .ok file := by
  unfold claimOccupiesPath at ho
  have hkey {values paths : List String} (hu : uniqueRepositoryPaths values = .ok paths)
      (hv : ∀ value ∈ values, value ∈ plan.expectedFiles) (hm : file ∈ paths) :
      file ∈ plan.expectedFiles ∧ normalizeRepositoryPath file = .ok file := by
    obtain ⟨value, hvalue, hn⟩ := (mem_uniqueRepositoryPaths hu).mp hm
    obtain rfl := hfiles.normal value (hv value hvalue) file hn
    exact ⟨hv file hvalue, hn⟩
  cases h with
  | frozen hc =>
    rw [hc] at ho
    obtain ⟨paths, hu, ho⟩ := except_bind_ok ho
    exact hkey hu (fun _ hv => hv) (by simpa using Except.ok.inj ho)
  | declared hc hheld =>
    rw [hc] at ho
    obtain ⟨paths, hu, ho⟩ := except_bind_ok ho
    exact hkey hu hheld (by simpa using Except.ok.inj ho)

variable {files : List String} {holders : List (ActivePlan × String)}

theorem mem_arbitrationFiles {plan : AgentPlan} (h : arbitrationFiles plan = .ok files)
    {file : String} (hf : file ∈ plan.expectedFiles) (hn : normalizeRepositoryPath file = .ok file) :
    file ∈ files := by
  unfold arbitrationFiles at h
  split at h
  · obtain rfl := Except.ok.inj h
    exact hf
  · refine (mem_uniqueRepositoryPaths h).mpr ⟨file, ?_, hn⟩
    exact List.mem_append_left _ (List.mem_append_left _ hf)

theorem mem_arbitrationFiles_resolved {plan : AgentPlan} (h : arbitrationFiles plan = .ok files)
    {grounding : PlanGrounding} (hg : plan.grounding = some grounding)
    {reference : GroundedFileReference} (hr : reference ∈ grounding.fileReferents)
    (hn : normalizeRepositoryPath reference.resolved = .ok reference.resolved) :
    reference.resolved ∈ files := by
  unfold arbitrationFiles at h
  rw [hg] at h
  refine (mem_uniqueRepositoryPaths h).mpr ⟨reference.resolved, ?_, hn⟩
  exact List.mem_append_left _ (List.mem_append_right _ (List.mem_map.mpr ⟨reference, hr, rfl⟩))

/-! ## A claimed file is contested -/

theorem mem_claimHolders {taskId file : String} {active : List ActivePlan}
    (h : claimHolders taskId file active = .ok holders) {entry : ActivePlan} (he : entry ∈ active)
    (hother : entry.taskId ≠ taskId) {kind : String} (hkind : heldClaimKind entry.plan = some kind)
    (ho : claimOccupiesPath entry.plan file = .ok true) : (entry, kind) ∈ holders := by
  induction active generalizing holders with
  | nil => cases he
  | cons holder active ih =>
    unfold claimHolders at h
    rcases List.mem_cons.mp he with rfl | he
    · rw [if_neg hother, hkind] at h
      obtain ⟨occupies, hc, h⟩ := except_bind_ok h
      obtain ⟨rest, hr, h⟩ := except_bind_ok h
      obtain rfl := Except.ok.inj h
      obtain rfl := Except.ok.inj (hc.symm.trans ho)
      exact List.mem_cons_self
    · split at h
      · exact ih h he
      · obtain ⟨occupies, hc, h⟩ := except_bind_ok h
        obtain ⟨rest, hr, h⟩ := except_bind_ok h
        obtain rfl := Except.ok.inj h
        split
        · exact List.mem_cons_of_mem _ (ih hr he)
        · exact ih hr he

theorem coveredBy_heldBy {file : String} {existing : Option DeferredResource} (hne : holders ≠ []) :
    ∃ covered, coveredBy file existing holders = some covered ∧
      covered.resourceType = .file ∧ covered.resourceId = file ∧
      (∀ old, existing = some old → ∀ taskId ∈ old.heldBy, taskId ∈ covered.heldBy) ∧
      ∀ holder ∈ holders, holder.1.taskId ∈ covered.heldBy := by
  induction holders generalizing existing with
  | nil => exact absurd rfl hne
  | cons holder holders ih =>
    have hfirst : ∀ taskId, taskId ∈ (coverBy file existing holder.1 holder.2).heldBy ↔
        taskId ∈ (existing.map DeferredResource.heldBy).getD [] ∨ taskId = holder.1.taskId := by
      intro taskId
      simp only [coverBy, mem_sortStrings, mem_unique, List.mem_append, List.mem_singleton]
    have hold : ∀ old, existing = some old → ∀ taskId ∈ old.heldBy,
        taskId ∈ (coverBy file existing holder.1 holder.2).heldBy := by
      intro old hold taskId ht
      rw [hfirst, hold]
      exact .inl ht
    cases holders with
    | nil =>
      refine ⟨coverBy file existing holder.1 holder.2, rfl, rfl, rfl, hold, ?_⟩
      intro other ho
      rw [List.mem_singleton.mp ho, hfirst]
      exact .inr rfl
    | cons next rest =>
      obtain ⟨covered, hc, ht, hid, hexisting, hholders⟩ :=
        @ih (some (coverBy file existing holder.1 holder.2)) (List.cons_ne_nil _ _)
      refine ⟨covered, hc, ht, hid, ?_, ?_⟩
      · intro old ho taskId htask
        exact hexisting _ rfl taskId (hold old ho taskId htask)
      · intro other ho
        rcases List.mem_cons.mp ho with rfl | ho
        · exact hexisting _ rfl _ ((hfirst _).mpr (.inr rfl))
        · exact hholders other ho

section

variable [TextRuntime] [Printer]

/-- **A declared file a claim occupies is contested**, and its holder is named
wherever it is. -/
theorem contestedFiles_claimed {self : PlanAdmissionController} {input : PlanAdmissionInput}
    {occupancy : FileOccupancy} {contested : List DeferredResource}
    (h : self.contestedFiles input occupancy = .ok contested) {entry : ActivePlan}
    (he : entry ∈ input.active) (hother : entry.taskId ≠ input.plan.taskId)
    (hclaim : LiveClaim entry.plan) {file : String}
    (ho : claimOccupiesPath entry.plan file = .ok true) :
    (file ∈ input.plan.expectedFiles → normalizeRepositoryPath file = .ok file →
        ∃ found ∈ contested, found.resourceType = .file ∧ found.resourceId = file) ∧
      ∀ found ∈ contested, found.resourceId = file → entry.taskId ∈ found.heldBy := by
  obtain ⟨kind, hkind⟩ := hclaim.kind
  unfold PlanAdmissionController.contestedFiles at h
  obtain ⟨files, hfiles, h⟩ := except_bind_ok h
  obtain ⟨overlapping, hoverlapping, h⟩ := except_bind_ok h
  dsimp only at h
  obtain ⟨covered, hcovered, h⟩ := except_bind_ok h
  obtain rfl := Except.ok.inj h
  have hall := mapM_ok hcovered
  refine ⟨?_, ?_⟩
  · intro hexpected hn
    have hf : file ∈ files := (mem_uniqueRepositoryPaths hfiles).mpr ⟨file, hexpected, hn⟩
    have hm : file ∈ overlapping.map DeferredResource.resourceId ++
        files.filter fun file => file ∉ overlapping.map DeferredResource.resourceId := by
      by_cases hknown : file ∈ overlapping.map DeferredResource.resourceId
      · exact List.mem_append_left _ hknown
      · exact List.mem_append_right _ (List.mem_filter.mpr ⟨hf, by simpa using hknown⟩)
    obtain ⟨found, hfound, hr⟩ := forall₂_mem hall hm
    obtain ⟨holders, hholders, hr⟩ := except_bind_ok hr
    have hentry := mem_claimHolders hholders he hother hkind ho
    obtain ⟨cover, hcover, ht, hid, -⟩ := coveredBy_heldBy (List.ne_nil_of_mem hentry)
    rw [← Except.ok.inj hr, hcover] at hfound
    refine ⟨cover, ?_, ht, hid⟩
    rw [mem_sortByLocale]
    exact List.mem_filterMap.mpr ⟨_, hfound, rfl⟩
  · intro found hfound hid
    rw [mem_sortByLocale] at hfound
    obtain ⟨cover, hcover, hsome⟩ := List.mem_filterMap.mp hfound
    obtain ⟨name, -, hr⟩ := forall₂_mem hall.flip hcover
    obtain ⟨holders, hholders, hr⟩ := except_bind_ok hr
    have hr := (Except.ok.inj hr).trans hsome
    -- what is known of a file is about that file
    have hname : name = file := by
      cases holders with
      | nil =>
        have hfind : found.resourceId = name := by simpa using List.find?_some hr
        rw [← hid, hfind]
      | cons holder rest =>
        obtain ⟨cover', hcover', -, hid', -⟩ := coveredBy_heldBy (List.cons_ne_nil holder rest)
        rw [hcover'] at hr
        rw [← hid, ← hid', Option.some.inj hr]
    rw [hname] at hholders
    have hentry := mem_claimHolders hholders he hother hkind ho
    obtain ⟨cover', hcover', -, -, -, hheld⟩ := coveredBy_heldBy (List.ne_nil_of_mem hentry)
    rw [hcover'] at hr
    rw [← Option.some.inj hr]
    exact hheld _ hentry

end

/-! ## A claimed file is not shared -/

theorem partitionBy_cases {divide : DeferredResource → Except PathError (Option PartiallyHeldFile)}
    {contested : List DeferredResource} {division : Partition}
    (h : partitionBy divide contested = .ok division) {entry : DeferredResource}
    (he : entry ∈ contested) :
    entry ∈ division.whole ∨ ∃ shared, divide entry = .ok (some shared) := by
  induction contested generalizing division with
  | nil => cases he
  | cons other contested ih =>
    unfold partitionBy at h
    obtain ⟨found, hd, h⟩ := except_bind_ok h
    obtain ⟨rest, hr, h⟩ := except_bind_ok h
    obtain rfl := Except.ok.inj h
    rcases List.mem_cons.mp he with rfl | he
    · cases found with
      | none => exact .inl List.mem_cons_self
      | some shared => exact .inr ⟨shared, hd⟩
    · rcases ih hr he with hw | hs
      · cases found with
        | none => exact .inl (List.mem_cons_of_mem _ hw)
        | some shared => exact .inl hw
      · exact .inr hs

theorem readHolders_all {read : String → Except PathError (Option (List NamedRange × Bool))}
    {holders : List String} {holding : HeldSpans}
    (h : readHolders read holders = .ok (some holding)) {holder : String} (hm : holder ∈ holders) :
    ∃ found, read holder = .ok (some found) := by
  induction holders generalizing holding with
  | nil => cases hm
  | cons other holders ih =>
    unfold readHolders at h
    obtain ⟨found, hr, h⟩ := except_bind_ok h
    cases found with
    | none => cases h
    | some found =>
      dsimp only at h
      split at h
      · cases h
      · obtain ⟨rest, hrest, h⟩ := except_bind_ok h
        rcases List.mem_cons.mp hm with rfl | hm
        · exact ⟨found, hr⟩
        · cases rest with
          | none => cases h
          | some rest => exact ih hrest hm

section

variable [TextRuntime] [Lemmatizer]

variable {input : PlanAdmissionInput} {entry : ActivePlan} {found : Option (List NamedRange × Bool)}

theorem readHolder_claimed (hone : input.OnePerTask) (he : entry ∈ input.active)
    (hfiles : Canonical entry.plan.expectedFiles) (hclaim : LiveClaim entry.plan) {file : String}
    (ho : claimOccupiesPath entry.plan file = .ok true) {shareDeclared : Bool}
    (h : readHolder input shareDeclared file entry.taskId = .ok found) : found = none := by
  unfold readHolder at h
  rw [hone.find he] at h
  obtain ⟨reached, hr, h⟩ := except_bind_ok h
  have hnone : reached = none := by
    cases hlocate : input.symbolRangesInFile with
    | none =>
      rw [hlocate] at hr
      exact (Except.ok.inj hr).symm
    | some locate =>
      obtain ⟨hdeclared, hn⟩ := hclaim.declares hfiles ho
      have hr' := hr
      unfold occupiedSpans at hr'
      rw [hlocate] at hr'
      obtain ⟨files, hu, -⟩ := except_bind_ok hr'
      have hm : file ∈ files := (mem_uniqueRepositoryPaths hu).mpr ⟨file, hdeclared, hn⟩
      exact (Except.ok.inj (hr.symm.trans (occupiedSpans_declared hu hm)))
  subst hnone
  dsimp only at h
  split at h
  · exact (Except.ok.inj h).symm
  · split at h
    · exact (Except.ok.inj h).symm
    · rw [ho] at h
      exact (Except.ok.inj h).symm

theorem readWithin_claimed (hone : input.OnePerTask) (he : entry ∈ input.active) {file : String}
    (ho : claimOccupiesPath entry.plan file = .ok true) {locate : String → Option (List NamedRange)}
    (h : readWithin input locate file entry.taskId = .ok found) : found = none := by
  unfold readWithin at h
  rw [hone.find he] at h
  dsimp only at h
  rw [ho] at h
  exact (Except.ok.inj h).symm

end

section

variable [TextRuntime] [Printer] [Lemmatizer]

variable {self : PlanAdmissionController} {shared : List PartiallyHeldFile}

/-- **A route defers every declared file a claim occupies, and shares none.** -/
theorem Route.claimed {input : PlanAdmissionInput} (hone : input.OnePerTask)
    {deferred : List DeferredResource} (h : Route self input shared deferred) {entry : ActivePlan}
    (he : entry ∈ input.active) (hother : entry.taskId ≠ input.plan.taskId)
    (hfiles : Canonical entry.plan.expectedFiles) (hclaim : LiveClaim entry.plan) {file : String}
    (ho : claimOccupiesPath entry.plan file = .ok true) : (file ∈ input.plan.expectedFiles →
        ⟨.file, file⟩ ∈ deferred.map DeferredResource.ref) ∧
      ∀ division ∈ shared, division.file ≠ file := by
  have hlisted {found : DeferredResource} {list : List DeferredResource} (hm : found ∈ list)
      (ht : found.resourceType = .file) (hid : found.resourceId = file) :
      ⟨.file, file⟩ ∈ list.map DeferredResource.ref := by
    refine List.mem_map.mpr ⟨found, hm, ?_⟩
    rw [DeferredResource.ref, ht, hid]
  have hn := (hclaim.declares hfiles ho).2
  cases h with
  | declaredPaths hc =>
    refine ⟨?_, fun division hd => by cases hd⟩
    intro hexpected
    obtain ⟨found, hfound, ht, hid⟩ :=
      (contestedFiles_claimed hc he hother hclaim ho).1 hexpected hn
    exact hlisted (List.mem_append_left _ hfound) ht hid
  | @divided contested lost symbols division divide hc hdivide hdivision hlost hsymbols =>
    have hcontested := contestedFiles_claimed hc he hother hclaim ho
    -- the claim's holder cannot be read in a file it claims
    have hwhole {found : DeferredResource} (hfound : found ∈ contested)
        (hid : found.resourceId = file) {division : PartiallyHeldFile} :
        divide found ≠ .ok (some division) := by
      intro hd
      have hheld := hcontested.2 found hfound hid
      rcases hdivide with ⟨declared, shareDeclared, -, rfl⟩ | ⟨locate, readable, -, rfl⟩
      · obtain ⟨holding, hr, -⟩ := divideContested_ok hd
        obtain ⟨reading, hread⟩ := readHolders_all hr hheld
        rw [hid] at hread
        cases readHolder_claimed hone he hfiles hclaim ho hread
      · obtain ⟨holding, hr, -⟩ := divideWithin_ok hd
        obtain ⟨reading, hread⟩ := readHolders_all hr hheld
        rw [hid] at hread
        cases readWithin_claimed hone he ho hread
    refine ⟨?_, ?_⟩
    · intro hexpected
      obtain ⟨found, hfound, ht, hid⟩ := hcontested.1 hexpected hn
      have hm : found ∈ division.whole :=
        (partitionBy_cases hdivision hfound).resolve_right fun ⟨_, hd⟩ => hwhole hfound hid hd
      have hm : found ∈ lost := by
        unfold PlanAdmissionController.lostWith at hlost
        split at hlost
        · rename_i hnil
          rw [List.eq_nil_of_length_eq_zero hnil] at hm
          cases hm
        · obtain ⟨carried, -, hlost⟩ := except_bind_ok hlost
          obtain rfl := Except.ok.inj hlost
          exact List.mem_append_left _ (List.mem_append_left _ hm)
      exact hlisted (List.mem_append_left _ (List.mem_append_left _ hm)) ht hid
    · intro one hone' hfile
      obtain ⟨found, hfound, hd⟩ := mem_partitionBy hdivision hone'
      have hid : found.resourceId = file := by
        rw [← hfile]
        rcases hdivide with ⟨declared, shareDeclared, -, rfl⟩ | ⟨locate, readable, -, rfl⟩
        · obtain ⟨holding, -, rfl⟩ := divideContested_ok hd
          rfl
        · obtain ⟨holding, -, rfl⟩ := divideWithin_ok hd
          rfl
      exact hwhole hfound hid hd

/-! ## What is granted next to a claim -/

/-- Every plan is as `assertAgentPlan` leaves it. -/
structure PlanAdmissionInput.Validated (input : PlanAdmissionInput) : Prop where
  plan : Asserted input.plan
  active : ∀ entry ∈ input.active, Asserted entry.plan

omit [Printer] [Lemmatizer] in
/-- The candidate occupies the whole of a file a misname of it is grounded to, unless
the file is shared. -/
theorem occupancy_misnamed {input : PlanAdmissionInput} {plan : AgentPlan}
    (ht : plan.taskId = input.plan.taskId) {grounding : PlanGrounding}
    (hg : plan.grounding = some grounding) {reference : GroundedFileReference}
    (hr : reference ∈ grounding.fileReferents)
    (hs : ∀ division ∈ shared, division.file ≠ reference.resolved) {mine : List LineRange} :
    input.occupancy shared plan reference.resolved ≠ .ok (some mine) := by
  intro h
  have hnone : narrowedBy shared reference.resolved = none := by
    unfold narrowedBy
    rw [Option.map_eq_none_iff, List.find?_eq_none]
    intro division hd
    simpa using hs division hd
  unfold PlanAdmissionInput.occupancy at h
  simp only [if_pos ht, hnone] at h
  obtain ⟨found, hfound, h⟩ := except_bind_ok h
  rw [occupiedSpans_misnamed hg ⟨reference, hr, rfl⟩ hfound] at h
  cases h

omit [Lemmatizer] in
theorem Clears.misnamed {input : PlanAdmissionInput} {granted : AgentPlan} {answer : PlanAdmission}
    (hclears : Clears self granted input (input.occupancy shared) answer)
    (hw : 0 < self.conflicts.options.fileOverlapWeight) (ht : granted.taskId = input.plan.taskId)
    {entry : ActivePlan} (he : entry ∈ input.others input.plan.taskId) {file : String}
    (hdeclares : file ∈ entry.plan.expectedFiles) (hn : normalizeRepositoryPath file = .ok file)
    (htrim : trim file = file) (hs : ∀ division ∈ shared, division.file ≠ file)
    {grounding : PlanGrounding} (hg : granted.grounding = some grounding)
    {reference : GroundedFileReference} (hr : reference ∈ grounding.fileReferents) :
    reference.resolved ≠ file := by
  rintro rfl
  rw [← ht] at he
  obtain ⟨assessment, hassess, hclear⟩ := hclears.clear entry he
  have hover := ConflictDetector.assess_fileOverlap hw hassess hclear
  have hover' := hover
  unfold overlappingFiles at hover'
  obtain ⟨left, hl, hover'⟩ := except_bind_ok hover'
  obtain ⟨right, hright, -⟩ := except_bind_ok hover'
  have hin : reference.resolved ∈ left := mem_arbitrationFiles_resolved hl hg hr hn
  have hother : reference.resolved ∈ right := mem_arbitrationFiles hright hdeclares hn
  obtain ⟨mine, theirs, hmine, -⟩ := overlappingFiles_apart hl hright hover hin
    (List.mem_map.mpr ⟨_, hother, rfl⟩)
    (by rw [htrim]; exact normalizeRepositoryPath_ne_empty hn)
  rw [htrim] at hmine
  exact occupancy_misnamed ht hg hr hs hmine

end

/-- Holds `tax.ts` with a claim frozen from observation. -/
def frozenPlan : AgentPlan where
  taskId := "tax"
  objective := "sum up"
  expectedFiles := ["tax.ts"]
  expectedSymbols := []
  claim := some (.frozen ["src/"])

/-- Holds a file with a space at the end of its name, and reaches `cart.ts` through
a symbol. -/
def frozenSpacedPlan : AgentPlan := { spacedPlan with claim := some (.frozen ["src/"]) }

/-- Misnames that file, and names `cart.ts`. -/
def misnamingCartPlan : AgentPlan where
  taskId := "format"
  objective := "print prices"
  expectedFiles := ["basket.ts", "cart.ts"]
  expectedSymbols := ["format"]
  grounding := some
    { confidence := .grounded, missingFiles := ["basket.ts"], unresolvedSymbols := []
      fileReferents := [⟨"basket.ts", "cart.ts "⟩], symbolReferents := [], notes := [] }

theorem arriving_validated {plan holder : AgentPlan} (index : SymbolIndex)
    (hp : assertAgentPlan plan = .ok plan) (hh : assertAgentPlan holder = .ok holder) :
    (arriving plan holder index).Validated where
  plan := assertAgentPlan_asserted hp
  active entry he := by
    rw [List.mem_singleton.mp he]
    exact assertAgentPlan_asserted hh

attribute [local instance] asciiRuntime wholePrinter plainLemmatizer

end AgenticGit.Coordinator
