import AgenticGit.Shared.PlanScope
import AgenticGit.Coordinator.ConflictDetector
import AgenticGit.Coordinator.Occupancy
import AgenticGit.Coordinator.Ownership

/- Arbitration of one plan against the work already running:
   `PlanAdmissionController` of `plan-admission.ts`, method by method.

   Correspondence (TypeScript ↔ Lean):
     `admit`                                  ↔ `admitPlan`
     a method that throws                     ↔ `Except`, of the error of a path or a plan
     `this.ownershipFor()`                    ↔ the field `ownership`, a service without leases
     `new Date()`, `createId("lease")`        ↔ the fields `now` and `createId`
     `contested`, `withholdable` (the maps)   ↔ `Note`s in the order they are taken, grouped
       by resource at the end
     `carriers`, a map that is overwritten    ↔ the last carrier of a referent
     `occupied`, `narrowed` (the maps)        ↔ read off the shared files, one entry a file
     `decline.reason` and `undefined`         ↔ `Split.declined`
   An admission's `decidedAt` is left out. -/
namespace AgenticGit.Coordinator
open AgenticGit.Runtime AgenticGit.Shared

/-! ## Input -/

/-- A plan that has already been admitted and is being executed. -/
structure ActivePlan where
  taskId : String
  agentId : String
  plan : AgentPlan

structure PlanAdmissionInput where
  plan : AgentPlan
  agentId : String
  /-- Canonical revision the plan was written against. -/
  baseRevision : String
  /-- Canonical sequence, used as the ownership lease base. -/
  baseVersion : Int
  active : List ActivePlan
  planRevision : Option Int := none
  retryAfterMs : Option Int := none
  /-- How many times this task has already been refused on this same collision. -/
  blockedAttempts : Option Nat := none
  /-- Whether a plan that only partly collides may be admitted on the rest. -/
  partialAdmission : Option Bool := none
  /-- Resources the repository index attributes to one file. -/
  resourcesInFile : Option (String → List PlanResourceRef) := none
  /-- Where each symbol lives in one file. -/
  symbolRangesInFile : SymbolIndex := none
  intentAssessment : Option IntentConflictAssessment := none

def DEFAULT_PLAN_RETRY_MS : Int := 15000

def BLOCKED_ATTEMPTS_BEFORE_SEQUENCING : Nat := 2

def PlanAdmissionInput.others (input : PlanAdmissionInput) (taskId : String) : List ActivePlan :=
  input.active.filter fun entry => entry.taskId ≠ taskId

def PlanAdmissionInput.answer (input : PlanAdmissionInput) (taskId : String)
    (status : PlanAdmissionStatus) (ownershipGrants : List ResourceLease)
    (constraints blockedBy : List String) (conflicts : List ConflictAssessment)
    (explanation : String) (retryAfterMs : Option Int) : PlanAdmission where
  status
  taskId
  planRevision := input.planRevision.getD 1
  baseRevision := input.baseRevision
  ownershipGrants
  constraints
  blockedBy
  conflicts
  explanation
  retryAfterMs

/-- An answer other than an approval: it grants nothing and says when to ask again. -/
def PlanAdmissionInput.refuse (input : PlanAdmissionInput) (taskId : String)
    (status : PlanAdmissionStatus) (constraints blockedBy : List String)
    (conflicts : List ConflictAssessment) (explanation : String) : PlanAdmission :=
  input.answer taskId status [] constraints blockedBy conflicts explanation
    (some (input.retryAfterMs.getD DEFAULT_PLAN_RETRY_MS))

/-! ## Plans, read -/

/-- Resources a plan may claim in `approval_required` mode. -/
def approvedSchemaResources (plan : AgentPlan) : List String :=
  (plan.expectedSchemas.getD []).map fun resource => "schema\x00" ++ resource

/-- Every resource a plan claims, other than the files themselves. -/
def declaredResources (plan : AgentPlan) : List PlanResourceRef :=
  let complete := completeAgentPlan plan
  let refs := fun (resourceType : ResourceType) (ids : List String) =>
    ids.map fun resourceId => (⟨resourceType, resourceId⟩ : PlanResourceRef)
  refs .symbol complete.expectedSymbols ++ refs .api complete.expectedApis ++
    refs .schema complete.expectedSchemas ++ refs .configuration complete.expectedConfigKeys ++
    refs .test complete.expectedTests ++ refs .service complete.expectedServices

def otherTask (assessment : ConflictAssessment) (taskId : String) : String :=
  if assessment.taskIds.1 ≠ taskId then assessment.taskIds.1
  else if assessment.taskIds.2 ≠ taskId then assessment.taskIds.2
  else taskId

/-- The files among some that a plan's claim makes it occupy. -/
def occupiedAmong (plan : AgentPlan) : List String → Except PathError (List String)
  | [] => .ok []
  | file :: files => do
    let occupies ← claimOccupiesPath plan file
    let rest ← occupiedAmong plan files
    return if occupies then file :: rest else rest

/-- The file claims ownership should issue leases against. -/
def fileClaimsOn (plan : AgentPlan) (occupancy : FileOccupancy) :
    List String → Except PathError (List PlanFileClaim)
  | [] => .ok []
  | file :: files => do
    let ranges ← occupancy plan file
    let rest ← fileClaimsOn plan occupancy files
    return match ranges with
      | none => rest
      | some ranges => ⟨file, some ranges⟩ :: rest

def fileClaims (plan : AgentPlan) (occupancy : FileOccupancy) :
    Except PathError (List PlanFileClaim) := do
  fileClaimsOn plan occupancy (← arbitrationFiles plan)

/-! ## Occupancy -/

/-- A contested file the candidate can still be granted the rest of. -/
structure PartiallyHeldFile where
  file : String
  /-- The lines its holders occupy, withheld from the candidate. -/
  ranges : List LineRange
  /-- The same withholding stated as the holders' symbols. -/
  symbols : List DeferredResource
  /-- What each holder was read as occupying, for the holder's own lease. -/
  held : List (String × List NamedRange)

/-- `narrowed.get(file)`: the lines withheld from the candidate in a shared file. -/
def narrowedBy (shared : List PartiallyHeldFile) (file : String) : Option (List LineRange) :=
  (shared.find? fun entry => entry.file = file).map PartiallyHeldFile.ranges

/-- `occupied.get(taskId)?.get(file)`: the lines a holder was read as occupying. -/
def occupiedBy (shared : List PartiallyHeldFile) (taskId file : String) :
    Option (List LineRange) := do
  let entry ← shared.find? fun entry => entry.file = file
  let held ← entry.held.find? fun held => held.1 = taskId
  return normalizeRanges (held.2.map NamedRange.toLineRange)

section

variable [TextRuntime]

/-- How every plan in this admission is read at sub-file granularity, given the
files it shares. -/
def PlanAdmissionInput.occupancy (input : PlanAdmissionInput) (shared : List PartiallyHeldFile) :
    FileOccupancy := fun plan file =>
  let candidate := input.plan.taskId
  -- a holder's lease has to say the same lines the candidate's withholding says
  let stated := if plan.taskId = candidate then none else occupiedBy shared plan.taskId file
  match stated with
  | some stated => .ok (some (normalizeRanges stated))
  | none => do
    let spans ← occupiedSpans plan file input.symbolRangesInFile
    let spans := spans.map (List.map NamedRange.toLineRange)
    let held := (if plan.taskId = candidate then narrowedBy shared file else none).getD []
    if held.length = 0 then return spans.map normalizeRanges
    else return some (subtractRanges (spans.getD [wholeFile]) held)

end

/-! ## The controller -/

structure PlanAdmissionController where
  conflicts : ConflictDetector
  ownership : OwnershipService
  now : Int
  createId : String → Nat → String

namespace PlanAdmissionController

section

variable [TextRuntime] [Printer]

/-- A refusal when an executing task holds a claim over something this plan wants. -/
def claimBlocked (input : PlanAdmissionInput) : Except PathError (Option PlanAdmission) := do
  let candidate := input.plan.taskId
  let others := input.others candidate
  if others.length = 0 then return none
  let wanted ← arbitrationFiles input.plan
  let occupied ← others.mapM fun entry =>
    if isBlanketClaim entry.plan then return (entry, true, [])
    else return (entry, false, ← occupiedAmong entry.plan wanted)
  let blocking := occupied.filter fun entry => entry.2.1 || 0 < entry.2.2.length
  if blocking.length = 0 then return none
  let blanket := blocking.any fun entry => entry.2.1
  return some (input.refuse candidate .sequenced
    [if blanket then "Resubmit once the repository-wide claim is narrowed or released"
     else "Plan around the files the executing task is working in, " ++
      "or resubmit once it integrates"]
    (sortStrings (blocking.map fun entry => entry.1.taskId)) []
    (if blanket then
      "A task already executing holds a repository-wide claim, so nothing " ++
        "else can be admitted until it is narrowed to what it has touched"
     else
      "Executing work holds " ++
        ", ".intercalate (sortStrings (unique (blocking.flatMap fun entry => entry.2.2)))))

/-- An ownership view holding every executing plan's leases. A plan that cannot be
leased is left out. -/
def seededOwnership (self : PlanAdmissionController) (input : PlanAdmissionInput)
    (others : List ActivePlan) (occupancy : FileOccupancy) : OwnershipService :=
  others.foldl (fun ownership entry =>
    match fileClaims entry.plan occupancy with
    | .error _ => ownership
    | .ok claims =>
      (ownership.acquire self.now (self.createId entry.taskId) entry.plan entry.agentId
        input.baseVersion
        { approvedResources := some (approvedSchemaResources entry.plan)
          fileClaims := some claims }).2) self.ownership

/-! ## decide -/

/-- What scoring the candidate against each of the others finds. -/
def assessments (self : PlanAdmissionController) (plan : AgentPlan) (others : List ActivePlan)
    (occupancy : FileOccupancy) (intentAssessment : Option IntentConflictAssessment) :
    Except PathError (List ConflictAssessment) := do
  let found ← others.mapM fun entry =>
    self.conflicts.assess plan entry.plan (some occupancy) intentAssessment
  return found.filterMap id

/-- The answer to a plan that collides beyond the sequencing threshold. -/
def blockedAnswer (input : PlanAdmissionInput) (taskId : String)
    (blocking : List ConflictAssessment) : PlanAdmission :=
  let blockedAttempts := input.blockedAttempts.getD 0
  let blockedBy := blocking.map fun assessment => otherTask assessment taskId
  let collisions := "; ".intercalate (blocking.map fun assessment =>
    otherTask assessment taskId ++ " (" ++ numberText assessment.score ++ ") — " ++
      assessment.explanation)
  if BLOCKED_ATTEMPTS_BEFORE_SEQUENCING ≤ blockedAttempts then
    input.refuse taskId .sequenced
      ["Start from canonical state after the blocking tasks integrate",
       "Do not narrow this plan further; it is queued behind the " ++
        "conflicting work rather than competing with it"]
      blockedBy blocking
      ("Plan collides beyond the sequencing threshold with " ++ collisions ++
        ", and narrowing has already been asked for " ++ toString blockedAttempts ++
        " times without separating " ++
        "them. Sequenced behind the holder instead of replanned again.")
  else
    input.refuse taskId .blocked
      ["Plan again with a narrower scope, or wait for the conflicting task to settle"]
      blockedBy blocking
      ("Plan collides with executing work beyond the sequencing threshold: " ++ collisions)

def acquireOwnership (self : PlanAdmissionController) (plan : AgentPlan)
    (input : PlanAdmissionInput) (occupancy : FileOccupancy)
    (assessments : List ConflictAssessment) : Except PathError PlanAdmission := do
  let taskId := plan.taskId
  let ownership := self.seededOwnership input (input.others taskId) occupancy
  let claims ← fileClaims plan occupancy
  match (ownership.acquire self.now (self.createId taskId) plan input.agentId input.baseVersion
      { approvedResources := some (approvedSchemaResources plan)
        fileClaims := some claims }).1 with
  | .error error =>
    match error with
    | .conflict _ blockingLease =>
      return input.refuse taskId .sequenced
        ["Start from canonical state after the blocking tasks integrate"]
        [blockingLease.taskId] assessments
        ("Ownership is held by " ++ blockingLease.taskId ++ ": " ++ error.message toISOString)
    | .approvalRequired _ _ =>
      return input.refuse taskId .blocked
        ["Human approval is required before this plan can run"] [] assessments
        (error.message toISOString)
  | .ok grants =>
    -- advisory evidence never blocks, but the holder is told about it
    let advisory := assessments.filter fun assessment => !structuralConflict assessment
    let constraints := advisory.map fun assessment =>
      "Advisory overlap with " ++ otherTask assessment taskId ++ ": " ++ assessment.explanation
    return input.answer taskId
      (if 0 < advisory.length then .approvedWithConstraints else .approved)
      grants constraints [] advisory
      (if 0 < advisory.length then "Approved; advisory overlap with executing work was recorded"
       else "Approved: no structural conflict with executing work, ownership granted")
      none

variable [Lemmatizer]

/-- Executing plans an unverifiable candidate shares its objective with; the
question is not asked of a plan that was reduced. -/
def relatedToUngrounded (plan : AgentPlan) (others : List ActivePlan) (reduced : Bool) :
    List ActivePlan :=
  if !reduced && 0 < others.length && planGroundingConfidence plan = .ungrounded then
    others.filter fun entry => relatedObjectives plan entry.plan
  else []

/-- Unverifiable executing plans the candidate shares its objective with. -/
def ungroundedActive (plan : AgentPlan) (others : List ActivePlan) (reduced : Bool) :
    List ActivePlan :=
  if reduced then []
  else others.filter fun entry =>
    planGroundingConfidence entry.plan = .ungrounded && relatedObjectives plan entry.plan

def decide (self : PlanAdmissionController) (plan : AgentPlan) (input : PlanAdmissionInput)
    (occupancy : FileOccupancy) (reduced : Bool) : Except PathError PlanAdmission := do
  let taskId := plan.taskId
  let others := input.others taskId
  let related := relatedToUngrounded plan others reduced
  if 0 < related.length then
    return input.refuse taskId .sequenced
      ["Plan again naming files and symbols that exist in the repository, " ++
        "or resubmit once the executing tasks integrate"]
      (sortStrings (related.map ActivePlan.taskId)) []
      ("Plan verification found none of this plan's declared files or " ++
        "symbols in the repository, and executing work shares its stated " ++
        "objective, so the two cannot be proven disjoint: " ++
        "; ".intercalate ((plan.grounding.map PlanGrounding.notes).getD []))
  let unverified := ungroundedActive plan others reduced
  if 0 < unverified.length then
    return input.refuse taskId .sequenced
      ["Start from canonical state after the unverifiable tasks integrate"]
      (sortStrings (unverified.map ActivePlan.taskId)) []
      ("Executing work about the same objective could not be verified " ++
        "against the repository, so its real footprint is unknown: " ++
        ", ".intercalate (unverified.map ActivePlan.taskId))
  let assessments ← self.assessments plan others occupancy input.intentAssessment
  let structural := assessments.filter structuralConflict
  let blocking := structural.filter fun assessment => assessment.disposition = .block
  if 0 < blocking.length then return blockedAnswer input taskId blocking
  if 0 < structural.length then
    return input.refuse taskId .sequenced
      ["Start from canonical state after the blocking tasks integrate"]
      (structural.map fun assessment => otherTask assessment taskId) structural
      ("Sequenced behind executing work on the same resources: " ++
        "; ".intercalate (structural.map fun assessment =>
          otherTask assessment taskId ++ " — " ++ assessment.explanation))
  self.acquireOwnership plan input occupancy assessments

end

end PlanAdmissionController

/-! ## Contested resources -/

structure Note where
  id : String
  holder : String
  reason : String
  deriving DecidableEq, Repr

/-- What `contested` is asked about. -/
structure ContestKind where
  resourceType : ResourceType
  evidence : ConflictEvidenceKind
  declared : List String

section

variable [TextRuntime]

/-- The declaration whose grounding a real name came from; the last one counts. -/
def carrierOf (candidate : AgentPlan) (resourceType : ResourceType) (id : String) :
    Option String :=
  match candidate.grounding with
  | none => none
  | some grounding =>
    let entries : List (String × String) :=
      match resourceType with
      | .file => grounding.fileReferents.map fun entry => (entry.resolved, entry.declared)
      | .symbol => grounding.symbolReferents.map fun entry => (entry.resolved, entry.declared)
      | _ => []
    (entries.reverse.find? fun entry => toLowerCase entry.1 = toLowerCase id).map Prod.snd

/-- A contested referent is charged to the declaration that carries it; what no
declaration carries cannot be withheld. -/
def charge (candidate : AgentPlan) (kind : ContestKind) (note : Note) : Option Note :=
  let carrier :=
    if note.id ∈ kind.declared then some note.id
    else carrierOf candidate kind.resourceType note.id
  match carrier with
  | none => none
  | some carrier =>
    if carrier ∉ kind.declared then none
    else some
      { id := carrier
        holder := note.holder
        reason :=
          if carrier = note.id then note.reason
          else "via grounded referent " ++ note.id ++ ": " ++ note.reason }

/-- Notes about one resource as the resource to withhold. -/
def withholding (resourceType : ResourceType) (notes : List Note) (id : String) :
    DeferredResource :=
  let own := notes.filter fun note => note.id = id
  { resourceType
    resourceId := id
    heldBy := sortStrings (unique (own.map Note.holder))
    reason := "; ".intercalate (sortStrings (unique (own.map Note.reason))) }

/-- What one assessment says about resources of a kind. -/
def evidenceNotes (kind : ContestKind) (holder : ActivePlan)
    (assessment : Option ConflictAssessment) : List Note :=
  match assessment with
  | none => []
  | some assessment =>
    if structuralConflict assessment then
      (assessment.evidence.filter fun item => !item.advisory && item.kind = kind.evidence).flatMap
        fun item =>
          -- an overlap with what enrichment added is not a hold
          (item.resources.filter fun id => holdsSymbolItself kind.resourceType holder.plan id).map
            fun id => ⟨id, holder.taskId, "also declared by executing task " ++ holder.taskId⟩
    else []

def leaseNotes [Printer] (kind : ContestKind) (blockers : List ResourceLease) : List Note :=
  (blockers.filter fun lease => lease.resourceType = kind.resourceType).map fun lease =>
    ⟨lease.resourceId, lease.taskId, "owned by " ++ lease.taskId ++ " in " ++ lease.mode.name ++
      " mode until " ++ toISOString lease.expiresAt⟩

/-- Adds a claim to what is known about a contested file. -/
def coverBy (file : String) (existing : Option DeferredResource) (holder : ActivePlan)
    (kind : String) : DeferredResource :=
  { resourceType := .file
    resourceId := file
    heldBy := sortStrings (unique ((existing.map DeferredResource.heldBy).getD [] ++
      [holder.taskId]))
    reason := "; ".intercalate (sortStrings (unique
      ((existing.map fun entry => [entry.reason]).getD [] ++
        ["covered by " ++ kind ++ " claim held by " ++ holder.taskId]))) }

end

/-- The name of a claim that holds files without the rest of the repository. -/
def heldClaimKind (plan : AgentPlan) : Option String :=
  match plan.claim with
  | some (.frozen _) => some "frozen"
  | some (.declared _) => some "declared"
  | _ => none

/-- The holders whose frozen or declared claim occupies a file, with the kind. -/
def claimHolders (taskId file : String) :
    List ActivePlan → Except PathError (List (ActivePlan × String))
  | [] => .ok []
  | holder :: holders =>
    match if holder.taskId = taskId then none else heldClaimKind holder.plan with
    | none => claimHolders taskId file holders
    | some kind => do
      let occupies ← claimOccupiesPath holder.plan file
      let rest ← claimHolders taskId file holders
      return if occupies then (holder, kind) :: rest else rest

/-- What is known about a file once the claims on it are added. -/
def coveredBy (file : String) (existing : Option DeferredResource)
    (holders : List (ActivePlan × String)) : Option DeferredResource :=
  holders.foldl (fun existing holder => some (coverBy file existing holder.1 holder.2)) existing

namespace PlanAdmissionController

section

variable [TextRuntime] [Printer]

/-- Resources of one kind that executing work is holding, with who holds each. -/
def contested (self : PlanAdmissionController) (input : PlanAdmissionInput)
    (candidate : AgentPlan) (kind : ContestKind) (occupancy : FileOccupancy) :
    Except PathError (List DeferredResource) := do
  let others := input.others candidate.taskId
  let declared ← others.mapM fun entry => do
    return evidenceNotes kind entry
      (← self.conflicts.assess candidate entry.plan (some occupancy) none)
  let claims ← fileClaims candidate occupancy
  let blockers := ((self.seededOwnership input others occupancy).blockersFor self.now candidate
    { fileClaims := some claims }).1
  let notes := (declared.flatten ++ leaseNotes kind blockers).filterMap (charge candidate kind)
  return (sortByLocale id (unique (notes.map Note.id))).map (withholding kind.resourceType notes)

/-- Declared files that executing work is holding, with who holds each. -/
def contestedFiles (self : PlanAdmissionController) (input : PlanAdmissionInput)
    (occupancy : FileOccupancy) : Except PathError (List DeferredResource) := do
  let files ← uniqueRepositoryPaths input.plan.expectedFiles
  let contested ← self.contested input input.plan ⟨.file, .fileOverlap, files⟩ occupancy
  let known := contested.map DeferredResource.resourceId
  let covered ← (known ++ files.filter fun file => file ∉ known).mapM fun file => do
    let existing := contested.find? fun entry => entry.resourceId = file
    return coveredBy file existing (← claimHolders input.plan.taskId file input.active)
  return sortByLocale DeferredResource.resourceId (covered.filterMap id)

end

section

variable [TextRuntime]

/-- Claims the plan only carries because of a file being withheld. -/
def derivedFrom (input : PlanAdmissionInput) (contested : List DeferredResource) :
    List DeferredResource :=
  match input.resourcesInFile with
  | none => []
  | some locate =>
    let keyOf := fun (resource : PlanResourceRef) =>
      planResourceKey resource.resourceType resource.resourceId
    let withheld := contested.map DeferredResource.resourceId
    let retained := ((input.plan.expectedFiles.filter fun file => file ∉ withheld).flatMap
      locate).map keyOf
    let claimed := (declaredResources input.plan).map keyOf
    let derived := uniqueBy (fun entry => keyOf entry.1) ((contested.flatMap fun file =>
      (locate file.resourceId).map fun resource => (resource, file)).filter fun entry =>
        keyOf entry.1 ∉ retained && keyOf entry.1 ∈ claimed)
    sortByLocale (fun resource => resource.resourceType.name ++ ":" ++ resource.resourceId)
      (derived.map fun entry =>
        { resourceType := entry.1.resourceType
          resourceId := entry.1.resourceId
          heldBy := entry.2.heldBy
          reason := "claimed only through the deferred file " ++ entry.2.resourceId
          implied := true })

variable [Printer]

/-- Declared symbols whose contest exists only through grounding, withheld alongside
the files that made them contested. -/
def carriedSymbols (self : PlanAdmissionController) (input : PlanAdmissionInput)
    (withheldFiles : List DeferredResource) (occupancy : FileOccupancy) :
    Except PathError (List DeferredResource) :=
  match input.plan.grounding, input.symbolRangesInFile with
  | some grounding, some locate =>
    let withheld := withheldFiles.map DeferredResource.resourceId
    let ranges := (input.plan.expectedFiles.filter fun file => file ∉ withheld).map locate
    if ranges.any Option.isNone then .ok []
    else do
      let located := (ranges.flatMap fun entry => entry.getD []).map fun range =>
        toLowerCase range.name
      let contested ← self.contested input input.plan
        ⟨.symbol, .symbolOverlap, input.plan.expectedSymbols⟩ occupancy
      return (contested.filter fun resource =>
        let referents := grounding.symbolReferents.filter fun entry =>
          entry.declared = resource.resourceId
        0 < referents.length && toLowerCase resource.resourceId ∉ located &&
          referents.all fun entry => toLowerCase entry.resolved ∉ located).map
            fun resource => { resource with implied := true }
  | _, _ => .ok []

/-- Symbols still held once the contested files are gone, if and only if they can be
enforced. -/
def contestedSymbols (self : PlanAdmissionController) (input : PlanAdmissionInput)
    (reduced : AgentPlan) (occupancy : FileOccupancy) :
    Except PathError (List DeferredResource) :=
  match input.symbolRangesInFile with
  | none => .ok []
  | some locate => do
    let contested ← self.contested input reduced
      ⟨.symbol, .symbolOverlap, reduced.expectedSymbols⟩ occupancy
    let placed := fun (id : String) =>
      reduced.expectedFiles.flatMap fun file =>
        ((rangesOf locate file).filter fun range =>
          planResourceKey .symbol range.name = planResourceKey .symbol id).map fun range =>
            (⟨range.toLineRange, file⟩ : DeferredResourceLocation)
    -- a parseable file is not enough: the index must locate every withheld symbol
    if contested.all fun resource => 0 < (placed resource.resourceId).length then
      return contested.map fun resource =>
        { resource with locations := some (placed resource.resourceId) }
    else return []

end

/-! ## Sharing a contested file -/

section

variable [TextRuntime] [Lemmatizer]

/-- What the holders of one file were read as occupying, all of them. -/
structure HeldSpans where
  held : List (String × List NamedRange)
  /-- Some holder named the file and is read by its declarations. -/
  guessed : Bool

def HeldSpans.spans (holding : HeldSpans) : List NamedRange := holding.held.flatMap Prod.snd

/-- The lines one holder of a file occupies, as `partitionContested` reads them, and
whether it is read by its declarations; `none` when it cannot be bounded. -/
def readHolder (input : PlanAdmissionInput) (shareDeclared : Bool) (file holder : String) :
    Except PathError (Option (List NamedRange × Bool)) :=
  match input.active.find? fun entry => entry.taskId = holder with
  | none => .ok none
  | some active => do
    match ← occupiedSpans active.plan file input.symbolRangesInFile with
    | some reached => return some (reached, false)
    | none =>
      match input.symbolRangesInFile with
      | none => return none
      | some locate =>
        if !shareDeclared || active.plan.ownSymbols.length = 0 then return none
        else if ← claimOccupiesPath active.plan file then return none
        else return (← declaredSpans active.plan file locate).map fun spans => (spans, true)

/-- The lines one holder of a file occupies, as `admitWithinFiles` reads them. -/
def readWithin (input : PlanAdmissionInput) (locate : String → Option (List NamedRange))
    (file holder : String) : Except PathError (Option (List NamedRange × Bool)) :=
  match input.active.find? fun entry => entry.taskId = holder with
  | none => .ok none
  | some active => do
    if ← claimOccupiesPath active.plan file then return none
    else return (← declaredSpans active.plan file locate).map fun spans => (spans, true)

/-- The loop over the holders of one file; it ends at the first that occupies no
known lines. -/
def readHolders (read : String → Except PathError (Option (List NamedRange × Bool))) :
    List String → Except PathError (Option HeldSpans)
  | [] => .ok (some ⟨[], false⟩)
  | holder :: holders => do
    match ← read holder with
    | none => return none
    | some (spans, byDeclarations) =>
      if spans.length = 0 then return none
      else
        return (← readHolders read holders).map fun rest =>
          ⟨(holder, spans) :: rest.held, byDeclarations || rest.guessed⟩

end

/-- The ranges of the spans, and with `tail` everything past the last line the index
accounts for. -/
def withheldRanges (all spans : List NamedRange) (tail : Bool) : List LineRange :=
  let known := knownEnd all
  normalizeRanges (spans.map NamedRange.toLineRange ++
    if tail && 0 < known then [⟨known + 1, maxSafeInteger⟩] else [])

section

variable [TextRuntime] [Lemmatizer]

/-- The body of the loop of `partitionContested`: how a contested file can be shared,
or `none` when it is lost whole. -/
def divideContested (input : PlanAdmissionInput) (declared : List String) (shareDeclared : Bool)
    (entry : DeferredResource) : Except PathError (Option PartiallyHeldFile) := do
  let file := entry.resourceId
  let misnamed := ((input.plan.grounding.map PlanGrounding.fileReferents).getD []).map
    GroundedFileReference.declared
  if file ∉ declared ∨ file ∈ misnamed ∨ entry.heldBy.length = 0 then return none
  else
    match ← readHolders (readHolder input shareDeclared file) entry.heldBy with
    | none => return none
    | some holding =>
      let all := (input.symbolRangesInFile.bind fun locate => locate file).getD []
      -- nobody gets the tail of a file that is shared by declarations
      if holding.guessed &&
          !leavesGround all (normalizeRanges (holding.spans.map NamedRange.toLineRange)) then
        return none
      else
        return some
          { file
            ranges := withheldRanges all holding.spans holding.guessed
            symbols := withheldSymbolsFor file holding.spans entry
            held := holding.held }

/-- The body of the loop of `admitWithinFiles`. -/
def divideWithin (input : PlanAdmissionInput) (locate : String → Option (List NamedRange))
    (readable : List String) (entry : DeferredResource) :
    Except PathError (Option PartiallyHeldFile) := do
  let file := entry.resourceId
  let misnamed := ((input.plan.grounding.map PlanGrounding.fileReferents).getD []).map
    GroundedFileReference.declared
  if file ∉ readable ∨ file ∈ misnamed ∨ entry.heldBy.length = 0 then return none
  else
    match ← readHolders (readWithin input locate file) entry.heldBy with
    | none => return none
    | some holding =>
      let ranges := normalizeRanges (holding.spans.map NamedRange.toLineRange)
      if !leavesGround (rangesOf locate file) ranges then return none
      else
        return some
          { file, ranges
            symbols := withheldSymbolsFor file holding.spans entry
            held := holding.held }

end

/-- The contested files that are lost whole, and those that are shared. -/
structure Partition where
  whole : List DeferredResource
  shared : List PartiallyHeldFile

def partitionBy (divide : DeferredResource → Except PathError (Option PartiallyHeldFile)) :
    List DeferredResource → Except PathError Partition
  | [] => .ok ⟨[], []⟩
  | entry :: entries => do
    let division ← divide entry
    let rest ← partitionBy divide entries
    return match division with
      | none => ⟨entry :: rest.whole, rest.shared⟩
      | some shared => ⟨rest.whole, shared :: rest.shared⟩

end PlanAdmissionController

/-! ## Partial admission -/

/-- What came of trying to divide a plan. -/
inductive Split where
  | granted (admission : PlanAdmission)
  /-- Why partial admission declined, in one clause. -/
  | declined (reason : String)

def locationText (location : DeferredResourceLocation) : String :=
  location.file ++ " lines " ++ toString location.startLine ++ "-" ++ toString location.endLine

def resourceText (resource : DeferredResource) : String :=
  resource.resourceType.name ++ ":" ++ resource.resourceId

/-- The agent-facing half of a partial admission. -/
def deferralConstraints (deferred : List DeferredResource) : List String :=
  if deferred.length = 0 then []
  else
    ("Do not modify these deferred resources; they are owned by other " ++
      "executing tasks and will be handled by a follow-up task: " ++
      ", ".intercalate (deferred.map resourceText)) ::
    ((deferred.map fun resource => resourceText resource ++ " — " ++ resource.reason) ++
      (deferred.filter fun resource => 0 < (resource.locations.getD []).length).map
        fun resource => resourceText resource ++ " occupies " ++
          ", ".intercalate ((resource.locations.getD []).map locationText) ++
          "; edits elsewhere in those files are yours to make")

def deferredText (deferred : List DeferredResource) : String :=
  ", ".intercalate (deferred.map fun resource =>
    resource.resourceId ++ " (held by " ++ ", ".intercalate resource.heldBy ++ ")")

def partiallyAdmitted (whole answer : PlanAdmission) (reduced : AgentPlan)
    (deferred : List DeferredResource) : PlanAdmission :=
  { answer with
    status := .approvedWithConstraints
    blockedBy := []
    deferredResources := some deferred
    constraints := answer.constraints ++ deferralConstraints deferred
    conflicts := answer.conflicts ++ whole.conflicts.filter structuralConflict
    explanation := "Partially admitted: granted " ++ ", ".intercalate reduced.expectedFiles ++
      "; deferred " ++ deferredText deferred }

def ofPath {α : Type} (result : Except PathError α) : Except AgentPlanError α :=
  result.mapError AgentPlanError.path

namespace PlanAdmissionController

section

variable [TextRuntime] [Printer] [Lemmatizer]

/-- The path-granularity half of partial admission, for plans the index cannot
vouch for. -/
def admitDeclaredPaths (self : PlanAdmissionController) (input : PlanAdmissionInput)
    (whole : PlanAdmission) : Except AgentPlanError Split := do
  let occupancy := input.occupancy []
  let contested ← ofPath (self.contestedFiles input occupancy)
  if contested.length = 0 then return .declined "the refusal was not about file overlap"
  let deferred := contested ++ derivedFrom input contested
  let reduced ← reducePlanScope input.plan (deferred.map DeferredResource.ref)
  if reduced.expectedFiles.length = 0 then
    return .declined ("every file this plan named is contested, and an ungrounded plan has " ++
      "no index to draw a line inside one")
  let answer ← ofPath (self.decide reduced input occupancy true)
  if !planAdmissionApproved answer then
    return .declined ("the reduced plan was still refused: " ++ answer.explanation)
  let structural ← ofPath (self.decide input.plan input occupancy true)
  return .granted
    { answer with
      status := .approvedWithConstraints
      blockedBy := []
      deferredResources := some deferred
      constraints := answer.constraints ++ deferralConstraints deferred
      conflicts := uniqueBy
        (fun assessment => assessment.taskIds.1 ++ "\x00" ++ assessment.taskIds.2)
        (answer.conflicts ++ structural.conflicts.filter structuralConflict ++
          whole.conflicts.filter structuralConflict)
      explanation := "Partially admitted on declared paths: granted " ++
        ", ".intercalate reduced.expectedFiles ++ "; deferred " ++ deferredText deferred }

/-- Files that go back whole take what travels with them. -/
def lostWith (self : PlanAdmissionController) (input : PlanAdmissionInput)
    (lost : List DeferredResource) : Except PathError (List DeferredResource) :=
  if lost.length = 0 then .ok []
  else do
    let carried ← self.carriedSymbols input lost (input.occupancy [])
    return lost ++ derivedFrom input lost ++ carried

/-- What `admitPartially` and `admitWithinFiles` end with: the divided plan decided,
and decided again with the symbols it still collides on withheld. -/
def settle (self : PlanAdmissionController) (input : PlanAdmissionInput) (whole : PlanAdmission)
    (shared : List PartiallyHeldFile) (deferred : List DeferredResource) (reduced : AgentPlan)
    (answer : PlanAdmission) (noSymbol : String) : Except AgentPlanError Split := do
  if planAdmissionApproved answer then
    if deferred.length = 0 then return .declined "there was nothing to withhold"
    else return .granted (partiallyAdmitted whole answer reduced deferred)
  let occupancy := input.occupancy shared
  let symbols ← ofPath (self.contestedSymbols input reduced occupancy)
  if symbols.length = 0 then return .declined noSymbol
  let deferred := deferred ++ symbols
  let reduced ← reducePlanScope input.plan (deferred.map DeferredResource.ref)
  if reduced.expectedFiles.length = 0 then
    return .declined "withholding the collided symbols emptied the plan"
  let answer ← ofPath (self.decide reduced input occupancy true)
  if !planAdmissionApproved answer then
    return .declined ("the divided plan was still refused: " ++ answer.explanation)
  return .granted (partiallyAdmitted whole answer reduced deferred)

/-- The last thing tried: granting the contested paths themselves and withholding
only the lines their holders occupy. -/
def admitWithinFiles (self : PlanAdmissionController) (input : PlanAdmissionInput)
    (whole : PlanAdmission) (contested : List DeferredResource) :
    Except AgentPlanError Split := do
  match input.symbolRangesInFile with
  | none => return .declined "no symbol index was available to draw a line inside a file"
  | some locate =>
    if contested.length = 0 then return .declined "nothing was contested to divide"
    let granted ← ofPath (uniqueRepositoryPaths input.plan.expectedFiles)
    let readable := granted.filter fun file => (locate file).isSome
    if readable.length = 0 then
      return .declined ("the index could not read any of " ++ ", ".intercalate granted ++
        ", so no patch " ++ "to them could be checked against a holder's lines")
    let division ← ofPath (partitionBy (divideWithin input locate readable) contested)
    if division.shared.length = 0 then
      return .declined ("every contested file is held whole — " ++
        "; ".intercalate (division.whole.map fun entry => entry.resourceId ++ ": " ++ entry.reason))
    let deferred := (← ofPath (self.lostWith input division.whole)) ++
      division.shared.flatMap PartiallyHeldFile.symbols
    if deferred.length = 0 then return .declined "the split would have withheld nothing"
    let reduced ← reducePlanScope input.plan (deferred.map DeferredResource.ref)
    if reduced.expectedFiles.length = 0 then
      return .declined "every file this plan named was withheld"
    let answer ← ofPath (self.decide reduced input (input.occupancy division.shared) true)
    self.settle input whole division.shared deferred reduced answer
      "the division left a collision no withheld symbol could answer"

/-- Admits the uncontested remainder of a plan, or nothing. -/
def admitPartially (self : PlanAdmissionController) (input : PlanAdmissionInput)
    (whole : PlanAdmission) : Except AgentPlanError Split := do
  let contested ← ofPath (self.contestedFiles input (input.occupancy []))
  let declared ← ofPath (uniqueRepositoryPaths input.plan.expectedFiles)
  let free := declared.filter fun file => !contested.any fun entry => entry.resourceId = file
  let division ← ofPath (partitionBy (divideContested input declared (0 < free.length)) contested)
  let deferred := (← ofPath (self.lostWith input division.whole)) ++
    division.shared.flatMap PartiallyHeldFile.symbols
  let reduced ←
    if deferred.length = 0 then pure input.plan
    else reducePlanScope input.plan (deferred.map DeferredResource.ref)
  if reduced.expectedFiles.length = 0 then
    return ← self.admitWithinFiles input whole contested
  let answer ←
    if deferred.length = 0 then pure whole
    else ofPath (self.decide reduced input (input.occupancy division.shared) true)
  self.settle input whole division.shared deferred reduced answer
    ("dropping the contested files left a collision no withheld symbol " ++ "could answer")

/-- Decides one plan against the work already running. -/
def admitPlan (self : PlanAdmissionController) (input : PlanAdmissionInput) :
    Except AgentPlanError PlanAdmission := do
  let claimed ← ofPath (claimBlocked input)
  let blanketClaimed := (input.others input.plan.taskId).any fun entry => isBlanketClaim entry.plan
  match claimed, blanketClaimed with
  | some claimed, true => return claimed
  | claimed, _ =>
    let whole ←
      match claimed with
      | some claimed => pure claimed
      | none => ofPath (self.decide input.plan input (input.occupancy []) false)
    if planAdmissionApproved whole ||
        (input.partialAdmission = some false && claimed.isNone) then return whole
    let split ←
      if planGroundingConfidence input.plan = .ungrounded then self.admitDeclaredPaths input whole
      else self.admitPartially input whole
    match split with
    | .granted admission => return admission
    | .declined reason =>
      return { whole with explanation := whole.explanation ++ " (" ++ reason ++ ")" }

end

end PlanAdmissionController

end AgenticGit.Coordinator
