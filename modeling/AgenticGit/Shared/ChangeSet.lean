import AgenticGit.Shared.Plan
import AgenticGit.Shared.Conflicts

/- Changesets and admissions: what an agent hands back, and what it was granted
   (`shared-types`).

   An admission keeps what the controller writes and enforcement reads, less the
   time it was decided at; a changeset keeps its identity and its patches. -/
namespace AgenticGit.Shared
open AgenticGit.Runtime

/-! ## Changesets -/

inductive FilePatchStatus where
  | added | modified | deleted
  deriving DecidableEq, Repr

structure FilePatch where
  path : String
  status : FilePatchStatus
  patch : String
  deriving DecidableEq, Repr

structure ChangeSet where
  id : String
  taskId : String
  baseVersion : Int
  baseRevision : String
  patches : List FilePatch
  deriving DecidableEq, Repr

abbrev Line := List Char

/-- `text.split("\n")`. -/
def splitLines (text : String) : List Line := text.toList.splitOn '\n'

/-- `lines.join("\n")`. -/
def joinLines (lines : List Line) : String := String.ofList (['\n'].intercalate lines)

/-- `line.startsWith(head)`. -/
def Line.startsWith (line : Line) (head : String) : Bool := head.toList.isPrefixOf line

/-- One changed file as a thread reports it. -/
structure ChangedFileSummary where
  path : String
  status : FilePatchStatus
  added : Nat
  removed : Nat
  deriving DecidableEq, Repr

/-- The changed-file summary for a set of patches, counted from the patches. -/
def summariseChangedFiles (patches : List FilePatch) : List ChangedFileSummary :=
  patches.map fun patch =>
    let lines := splitLines patch.patch
    { path := patch.path
      status := patch.status
      added := (lines.filter fun line =>
        Line.startsWith line "+" && !Line.startsWith line "+++").length
      removed := (lines.filter fun line =>
        Line.startsWith line "-" && !Line.startsWith line "---").length }

/-! ## Admissions -/

/-- Where a withheld resource lives in one file, at the base revision. -/
structure DeferredResourceLocation extends LineRange where
  file : String
  deriving DecidableEq, Repr

/-- A declared resource an admission withheld while granting the rest. -/
structure DeferredResource where
  resourceType : ResourceType
  resourceId : String
  /-- Executing tasks that hold the resource right now. -/
  heldBy : List String
  reason : String
  /-- A consequence of another deferral in the same set. -/
  implied : Bool := false
  locations : Option (List DeferredResourceLocation) := none
  deriving DecidableEq, Repr

def DeferredResource.ref (resource : DeferredResource) : PlanResourceRef :=
  ⟨resource.resourceType, resource.resourceId⟩

inductive PlanAdmissionStatus where
  | approved | approvedWithConstraints | blocked | sequenced
  deriving DecidableEq, Repr

structure PlanAdmission where
  status : PlanAdmissionStatus
  taskId : String
  planRevision : Int
  /-- Canonical revision the plan was evaluated against. -/
  baseRevision : String
  ownershipGrants : List ResourceLease
  constraints : List String
  blockedBy : List String
  /-- Structural evidence behind a non-approval. -/
  conflicts : List ConflictAssessment
  deferredResources : Option (List DeferredResource) := none
  explanation : String
  /-- How long to wait before resubmitting the same plan. Absent when approved. -/
  retryAfterMs : Option Int := none
  deriving DecidableEq, Repr

def planAdmissionApproved (admission : PlanAdmission) : Bool :=
  admission.status = .approved || admission.status = .approvedWithConstraints

/-- `admission.deferredResources ?? []`. -/
def PlanAdmission.deferred (admission : PlanAdmission) : List DeferredResource :=
  admission.deferredResources.getD []

/-- Whether the holder was admitted on part of its plan rather than all of it. -/
def planAdmissionPartial (admission : PlanAdmission) : Bool :=
  planAdmissionApproved admission && 0 < admission.deferred.length

/-- Files a partial admission withheld, in the changeset's path form. -/
def deferredFilePaths (admission : PlanAdmission) : Except PathError (List String) :=
  uniqueRepositoryPaths
    ((admission.deferred.filter fun resource => resource.resourceType = .file).map
      DeferredResource.resourceId)

end AgenticGit.Shared
