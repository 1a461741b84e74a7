import AgenticGit.Shared.RemotePlan
import AgenticGit.Shared.ScopeChange

/- Why a plan, or the widening of one, waits for a person: the plan's half of
   `ApprovalPolicy` in `approval-service.ts`.

   Correspondence (TypeScript ↔ Lean):
     `new ApprovalPolicy(options)`            ↔ `ApprovalPolicy.new`
     the expression `globRegex` makes, tested ↔ `matchesGlob` of its `globParts`
     `new Set(xs)`, spread                    ↔ `unique`
   The options of the changeset and rollback reviews are left out. -/
namespace AgenticGit.Coordinator
open AgenticGit.Runtime AgenticGit.Shared

/-! ## Protected paths -/

/-- A piece of the expression a pattern becomes: `.*`, `[^/]*` or a character. -/
inductive GlobPart where
  | anything
  | segment
  | character (c : Char)
  deriving DecidableEq, Repr

def globParts : List Char → List GlobPart
  | [] => []
  | '*' :: '*' :: rest => .anything :: globParts rest
  | '*' :: rest => .segment :: globParts rest
  | c :: rest => .character c :: globParts rest

/-- What `.` does not match. -/
def isLineTerminator (c : Char) : Bool :=
  c = '\n' || c = '\r' || c = Char.ofNat 0x2028 || c = Char.ofNat 0x2029

/-- A starred piece: some characters of a class, then the rest of the expression. -/
def starred (p : Char → Bool) (rest : List Char → Bool) : List Char → Bool
  | [] => rest []
  | c :: cs => rest (c :: cs) || (p c && starred p rest cs)

def matchesGlob : List GlobPart → List Char → Bool
  | [] => List.isEmpty
  | .character c :: parts => fun
    | [] => false
    | d :: ds => c = d && matchesGlob parts ds
  | .anything :: parts => starred (fun c => !isLineTerminator c) (matchesGlob parts)
  | .segment :: parts => starred (fun c => c ≠ '/') (matchesGlob parts)

/-- `globRegex(pattern).test(file)`. -/
def globTest (pattern file : String) : Bool := matchesGlob (globParts pattern.toList) file.toList

/-! ## ApprovalPolicy -/

def DEFAULT_PATH_PATTERNS : List String :=
  [".github/workflows/**", "authentication/**", "database/migrations/**",
    "infrastructure/production/**", "package.json", "secrets/**"]

structure ApprovalPolicyOptions where
  enabled : Option Bool := none
  requireSchemaReview : Option Bool := none
  riskLevels : Option (List RiskLevel) := none
  pathPatterns : Option (List String) := none
  approvalTimeoutMs : Option Int := none
  requireRemotePlanReview : Option Bool := none

structure ApprovalPolicy where
  enabled : Bool
  riskLevels : List RiskLevel
  pathPatterns : List String
  timeoutMs : Int
  requireSchemaReview : Bool
  requireRemotePlanReview : Bool
  deriving DecidableEq, Repr

namespace ApprovalPolicy

def new (options : ApprovalPolicyOptions) : Except String ApprovalPolicy :=
  let timeoutMs := options.approvalTimeoutMs.getD (24 * 60 * 60 * 1000)
  if ¬ IsSafeInteger timeoutMs ∨ timeoutMs < 1000 then
    .error "Approval timeout must be at least one second"
  else
    .ok {
      enabled := options.enabled.getD false
      riskLevels := options.riskLevels.getD [.high, .critical]
      pathPatterns := options.pathPatterns.getD DEFAULT_PATH_PATTERNS
      timeoutMs
      requireSchemaReview := options.requireSchemaReview.getD true
      requireRemotePlanReview := options.requireRemotePlanReview.getD false }

def pathReasons (policy : ApprovalPolicy) (files : List String) : List String :=
  unique (files.filterMap fun file =>
    (policy.pathPatterns.find? fun pattern => globTest pattern file).map fun pattern =>
      "Path " ++ file ++ " matches protected pattern " ++ pattern)

def reasons (policy : ApprovalPolicy) (plan : RemotePlan) (files : List String) : List String :=
  unique <|
    (if plan.riskLevel ∈ policy.riskLevels then
      ["Task risk level is " ++ plan.riskLevel.name] else []) ++
    (if policy.requireSchemaReview = true ∧ 0 < (plan.expectedSchemas.getD []).length then
      ["Task changes one or more schemas"] else []) ++
    policy.pathReasons files

def planReasons (policy : ApprovalPolicy) (plan : RemotePlan) : List String :=
  if policy.enabled then policy.reasons plan plan.expectedFiles else []

/-- Why a remote worker's plan must wait for a person, or nothing. -/
def remotePlanReasons (policy : ApprovalPolicy) (plan : RemotePlan) : List String :=
  if policy.requireRemotePlanReview then policy.planReasons plan else []

/-- Why widening a contract must wait for a person, or nothing. -/
def scopeReasons (policy : ApprovalPolicy) (request : ScopeChangeRequest) : List String :=
  if policy.enabled then
    unique <|
      (if policy.requireSchemaReview = true ∧ 0 < request.additionalSchemas.length then
        ["Scope expansion changes one or more schemas"] else []) ++
      policy.pathReasons request.additionalFiles
  else []

end ApprovalPolicy

/-- Two stars reach across directories, one does not. -/
example : globTest "secrets/**" "secrets/a/b.txt" = true ∧
    globTest "src/*.ts" "src/a/b.ts" = false := by decide +kernel

end AgenticGit.Coordinator
