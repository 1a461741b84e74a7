import AgenticGit.Lib.Json
import AgenticGit.Lib.LogPages
import AgenticGit.Lib.Runs

/- Reading handoffs back from the audit log: `handoff-store.ts`, with the shape
   of a handoff and the resources it touches from `handoff.ts`.

   The read is a program of page reads, and between any two of them a compaction
   may move a prefix of the live log to the archive. The rows themselves do not
   change: the archive is the first `archived` of them.

   Correspondence (TypeScript ↔ Lean):
     entry.event.data                   ↔ `data`, a JSON value
     run_id IN (runs of a project)      ↔ `runProject`, the project of the row's run
     listAuditEvents / listArchivedAuditEvents ↔ `listAuditEvents` of the live
       rows and of the archived ones
     one round of readAuditPages        ↔ `nextCursor`
     readTaskHandoffs between its awaits ↔ `Phase`
     `seen`, `unreadable`               ↔ the fields of `Collected`

   What is proved: a read ends (`read_ends`); a read that has no row moved
   past its cursor while it walks the live log, of a record whose handoffs have
   times of their own, is a read of the whole record (`readTaskHandoffs_whole`).
   A compaction between two live pages can take newer rows than the read ever
   sees (`readTaskHandoffs_skips`). -/
namespace AgenticGit.Coordinator.Handoffs
open AgenticGit.Json AgenticGit.LogPages AgenticGit.Runs AgenticGit.Runtime

/-! ## Handoffs -/

/-- `value[name]`, of a value that is not an object `undefined`. -/
def field (value : Value) (name : String) : Value :=
  match value with
  | .object entries => (entries.lookup (ascii name)).getD .undefined
  | _ => .undefined

def text? : Value → Option Units
  | .string s => some s
  | _ => none

/-- `typeof value[name] === "string"` -/
def hasText (value : Value) (name : String) : Bool := (text? (field value name)).isSome

def isListOf (entry : Value → Bool) : Value → Bool
  | .array items => items.all entry
  | _ => false

def isObject : Value → Bool
  | .object _ => true
  | _ => false

def isString (value : Value) : Bool := (text? value).isSome

def isEvidence (value : Value) : Bool :=
  isObject value && hasText value "kind" && hasText value "reference" && hasText value "detail"

def isOpenItem (value : Value) : Bool :=
  isObject value && hasText value "item" && hasText value "reason" &&
    isListOf isString (field value "blockedBy")

def isUndefined : Value → Bool
  | .undefined => true
  | _ => false

def isDecision (value : Value) : Bool :=
  isObject value && hasText value "decision" && hasText value "rationale" &&
    (isUndefined (field value "reference") || hasText value "reference")

theorem one_lt : 1 < 10 := by decide

def oneDigits : List (Fin 10) := [⟨1, one_lt⟩]

theorem one_ne : oneDigits ≠ [] := List.cons_ne_nil _ _

theorem one_head : oneDigits.head one_ne ≠ 0 := by decide

theorem one_last : oneDigits.getLast one_ne ≠ 0 := by decide

def one : Number := .nonzero ⟨false, oneDigits, 1, one_ne, one_head, one_last⟩

/-- `value === 1` -/
def isOne : Value → Bool
  | .number n => n = one
  | _ => false

def isTaskHandoff (value : Value) : Bool :=
  isObject value && isOne (field value "version") &&
    ["taskId", "objective", "repositoryId", "reason", "canonicalRevision", "createdAt"].all
      (hasText value) &&
    isListOf isEvidence (field value "completed") && isListOf isOpenItem (field value "open") &&
    isListOf isDecision (field value "decisions") && isListOf isString (field value "gotchas") &&
    isListOf isString (field value "nextSteps")

def textOf (value : Value) (name : String) : Units := (text? (field value name)).getD []

def itemsOf (value : Value) (name : String) : List Value :=
  match field value name with
  | .array items => items
  | _ => []

/-! ## The resources a handoff touches -/

def isSpaceUnit (u : UInt16) : Bool := isSpace (Char.ofNat u.toNat)

def trimUnits (s : Units) : Units :=
  ((s.dropWhile isSpaceUnit).reverse.dropWhile isSpaceUnit).reverse

/-- `text.replace(mark, "")`: the first occurrence goes. -/
def removeFirst (mark : Units) : Units → Units
  | [] => []
  | u :: rest =>
    if mark.isPrefixOf (u :: rest) then (u :: rest).drop mark.length
    else u :: removeFirst mark rest

/-- `text.split(separator)`; `skip` units of a separator are still to pass. -/
def splitUnits (separator : Units) (piece : Units) : Nat → Units → List Units
  | _, [] => [piece.reverse]
  | skip + 1, _ :: rest => splitUnits separator piece skip rest
  | 0, u :: rest =>
    if separator.isPrefixOf (u :: rest) then
      piece.reverse :: splitUnits separator [] (separator.length - 1) rest
    else splitUnits separator (u :: piece) 0 rest

/-- `text.split(":").slice(1).join(":")` -/
def afterColon (s : Units) : Units := (s.dropWhile (· ≠ colonUnit)).drop 1

/-- The resource a mark at the start of an item names: what follows it, up to white space. -/
def namedAfter (mark : String) (item : Units) : Option Units :=
  if (ascii mark).isPrefixOf item then
    let name := (item.drop mark.length).takeWhile fun u => !isSpaceUnit u
    if name = [] then none else some name
  else none

def resourceMarks : List String :=
  ["file:", "symbol:", "api:", "schema:", "configuration:", "test:", "service:"]

def evidenceResources (entry : Value) : List Units :=
  (if textOf entry "kind" = ascii "changeset" then
    ((splitUnits (ascii ", ") [] 0 (removeFirst (ascii "changed ") (textOf entry "detail"))).map
      trimUnits).filter (· ≠ [])
  else []) ++
  (if textOf entry "kind" = ascii "ownership" then [afterColon (textOf entry "reference")] else [])

def openResources (item : Value) : List Units :=
  (resourceMarks.findSome? fun mark => namedAfter mark (textOf item "item")).toList ++
    (namedAfter "edits to " (textOf item "item")).toList

def handoffResources (handoff : Value) : List Units :=
  unique ((itemsOf handoff "completed").flatMap evidenceResources ++
    (itemsOf handoff "open").flatMap openResources)

/-! ## The log -/

def HANDOFF_AUDIT_TYPE : Units := ascii "handoff_recorded"

/-- How many audit rows one read of the log asks for. -/
def AUDIT_PAGE_SIZE : Nat := 5000

structure SequencedAuditEvent where
  sequence : Nat
  type : Units
  taskId : Option Units
  runProject : Option Units
  data : Value

structure HandoffQuery where
  taskId : Option Units := none
  projectId : Option Units := none
  repositoryId : Option Units := none
  /-- Only handoffs touching one of these resources. -/
  resources : List Units := []
  limit : Nat := 5

def selects (query : HandoffQuery) (entry : SequencedAuditEvent) : Bool :=
  entry.type = HANDOFF_AUDIT_TYPE &&
    query.taskId.all (fun taskId => entry.taskId = some taskId) &&
    query.projectId.all fun projectId =>
      text? (field entry.data "projectId") = some projectId || entry.runProject = some projectId

/-- The audit log, archived rows and live ones, oldest first. -/
structure AuditRecord where
  rows : List SequencedAuditEvent
  ordered : Ascending SequencedAuditEvent.sequence rows
  positive : ∀ row ∈ rows, 0 < row.sequence

/-- The rows of a table that a page of a filtered read answers. -/
def listAuditEvents (query : HandoffQuery) (table : List SequencedAuditEvent)
    (afterSequence : Nat) : List SequencedAuditEvent :=
  pageAfter SequencedAuditEvent.sequence AUDIT_PAGE_SIZE afterSequence
    (table.filter (selects query))

def nextCursor (afterSequence : Nat) (page : List SequencedAuditEvent) : Option Nat :=
  match page.getLast? with
  | none => none
  | some last =>
    if page.length < AUDIT_PAGE_SIZE ∨ last.sequence ≤ afterSequence then none
    else some last.sequence

/-! ## What is collected -/

def handoffOf (entry : SequencedAuditEvent) : Value := field entry.data "handoff"

def keyOf (handoff : Value) : Units :=
  textOf handoff "taskId" ++ (0 : UInt16) :: textOf handoff "createdAt"

/-- Whether a row that cannot be read could belong to the queried repository. -/
def couldBelong (query : HandoffQuery) (entry : SequencedAuditEvent) : Bool :=
  query.repositoryId.all fun repositoryId =>
    match text? (field entry.data "repositoryId") with
    | none => true
    | some owner => owner = repositoryId

def touches (query : HandoffQuery) (handoff : Value) : Bool :=
  query.resources = [] || query.resources.any fun resource => resource ∈ handoffResources handoff

structure Collected where
  handoffs : List Value := []
  seen : List Units := []
  unreadable : List Nat := []

def collectEntry (query : HandoffQuery) (found : Collected) (entry : SequencedAuditEvent) :
    Collected :=
  let candidate := handoffOf entry
  if isTaskHandoff candidate = false then
    if couldBelong query entry then
      { found with
        unreadable := if entry.sequence ∈ found.unreadable then found.unreadable
          else found.unreadable ++ [entry.sequence] }
    else found
  else if keyOf candidate ∈ found.seen then found
  else if query.repositoryId.any fun repositoryId =>
      textOf candidate "repositoryId" ≠ repositoryId then found
  else if touches query candidate = false then found
  else
    { found with
      seen := found.seen ++ [keyOf candidate]
      handoffs := found.handoffs ++ [candidate] }

/-- The handoffs in a batch of audit rows, newest first and deduplicated. -/
def collectHandoffs (entries : List SequencedAuditEvent) (query : HandoffQuery) : Collected :=
  (newestFirst SequencedAuditEvent.sequence entries).foldl (collectEntry query) {}

structure HandoffRead where
  handoffs : List Value
  unreadable : Nat
  incomplete : Bool

def answerOf (query : HandoffQuery) (entries : List SequencedAuditEvent) (incomplete : Bool) :
    HandoffRead :=
  let found := collectHandoffs entries query
  ⟨found.handoffs.take query.limit, found.unreadable.length, incomplete⟩

/-! ## The read -/

/-- Where a read of the handoffs stands: the walk it is in, with its cursor and what the
walks have read so far. -/
inductive Phase where
  | live (afterSequence : Nat) (read : List SequencedAuditEvent)
  | archive (live : List SequencedAuditEvent) (afterSequence : Nat)
      (read : List SequencedAuditEvent)
  | answered (answer : HandoffRead) (readArchive : Bool)
  | threw

/-- How many rows of the record are in the archive, and where the read stands. -/
structure World where
  archived : Nat := 0
  phase : Phase := .live 0 []

inductive Event where
  /-- A checkpoint that archives the rows up to a place. -/
  | compact (through : Nat)
  /-- The page the read waits for; `false` when the store fails. -/
  | page (ok : Bool)

def afterLivePage (query : HandoffQuery) (afterSequence : Nat)
    (read page : List SequencedAuditEvent) : Phase :=
  match nextCursor afterSequence page with
  | some cursor => .live cursor (read ++ page)
  | none =>
    if query.limit ≤ (collectHandoffs (read ++ page) query).handoffs.length then
      .answered (answerOf query (read ++ page) false) false
    else .archive (read ++ page) 0 []

def afterArchivePage (query : HandoffQuery) (live : List SequencedAuditEvent)
    (afterSequence : Nat) (read page : List SequencedAuditEvent) : Phase :=
  match nextCursor afterSequence page with
  | some cursor => .archive live cursor (read ++ page)
  | none =>
    if read ++ page = [] then .answered (answerOf query live false) true
    else .answered (answerOf query (live ++ (read ++ page)) false) true

section
variable (record : AuditRecord) (query : HandoffQuery)

def readPage (world : World) : Phase → Option Phase
  | .live afterSequence read =>
    some (afterLivePage query afterSequence read
      (listAuditEvents query (record.rows.drop world.archived) afterSequence))
  | .archive live afterSequence read =>
    some (afterArchivePage query live afterSequence read
      (listAuditEvents query (record.rows.take world.archived) afterSequence))
  | .answered _ _ | .threw => none

def step (world : World) : Event → Option World
  | .compact through =>
    if world.archived ≤ through ∧ through ≤ record.rows.length then
      some { world with archived := through }
    else none
  | .page true => (readPage record query world world.phase).map fun phase =>
      { world with phase := phase }
  | .page false =>
    match world.phase with
    | .live _ _ => some { world with phase := .threw }
    | .archive live _ _ => some { world with phase := .answered (answerOf query live true) true }
    | .answered _ _ | .threw => none

end

/-! ## What the rows say -/

/-- The handoff on a row, when it can be read and matches the query. -/
def wanted (query : HandoffQuery) (entry : SequencedAuditEvent) : Option Value :=
  let candidate := handoffOf entry
  if isTaskHandoff candidate = true ∧
      query.repositoryId.all (fun repositoryId =>
        textOf candidate "repositoryId" = repositoryId) = true ∧
      touches query candidate = true then some candidate
  else none

/-- A row that cannot be read and could belong to the queried repository. -/
def damaged (query : HandoffQuery) (entry : SequencedAuditEvent) : Bool :=
  !isTaskHandoff (handoffOf entry) && couldBelong query entry

/-- What was collected of some rows, taken in their order. -/
structure Collects (query : HandoffQuery) (rows : List SequencedAuditEvent)
    (found : Collected) : Prop where
  handoffs : found.handoffs = uniqueBy keyOf (rows.filterMap (wanted query))
  seen : ∀ key, key ∈ found.seen ↔ key ∈ (rows.filterMap (wanted query)).map keyOf
  nodup : found.unreadable.Nodup
  unreadable : ∀ sequence, sequence ∈ found.unreadable ↔
    ∃ row ∈ rows, damaged query row = true ∧ row.sequence = sequence

theorem Collects.skip {query : HandoffQuery} {rows : List SequencedAuditEvent}
    {found : Collected} (h : Collects query rows found) {entry : SequencedAuditEvent}
    (hwanted : wanted query entry = none ∨
      ∃ handoff, wanted query entry = some handoff ∧ keyOf handoff ∈ found.seen)
    (hdamaged : damaged query entry = false) : Collects query (rows ++ [entry]) found := by
  have hrows : ∀ sequence, (∃ row ∈ rows ++ [entry], damaged query row = true ∧
      row.sequence = sequence) ↔ ∃ row ∈ rows, damaged query row = true ∧
        row.sequence = sequence := by
    intro sequence
    simp only [List.mem_append, List.mem_singleton, or_and_right, exists_or, exists_eq_left,
      hdamaged, Bool.false_eq_true, false_and, or_false]
  rcases hwanted with hnone | ⟨handoff, hsome, hseen⟩
  · have hmap : (rows ++ [entry]).filterMap (wanted query) = rows.filterMap (wanted query) := by
      rw [List.filterMap_append, List.filterMap_cons, hnone, List.filterMap_nil, List.append_nil]
    exact ⟨by rw [hmap]; exact h.handoffs, by rw [hmap]; exact h.seen, h.nodup,
      fun sequence => (h.unreadable sequence).trans (hrows sequence).symm⟩
  · have hmap : (rows ++ [entry]).filterMap (wanted query) =
        rows.filterMap (wanted query) ++ [handoff] := by
      rw [List.filterMap_append, List.filterMap_cons, hsome, List.filterMap_nil]
    have hkey := (h.seen (keyOf handoff)).1 hseen
    refine ⟨?_, fun key => ?_, h.nodup,
      fun sequence => (h.unreadable sequence).trans (hrows sequence).symm⟩
    · rw [hmap, uniqueBy_concat, if_pos hkey, List.append_nil]
      exact h.handoffs
    · rw [hmap, List.map_append, List.mem_append, List.map_cons, List.map_nil,
        List.mem_singleton, h.seen]
      exact ⟨.inl, fun hor => hor.elim id fun heq => heq ▸ hkey⟩

theorem Collects.addDamaged {query : HandoffQuery} {rows : List SequencedAuditEvent}
    {found : Collected} (h : Collects query rows found) {entry : SequencedAuditEvent}
    (hwanted : wanted query entry = none) (hdamaged : damaged query entry = true) :
    Collects query (rows ++ [entry])
      { found with
        unreadable := if entry.sequence ∈ found.unreadable then found.unreadable
          else found.unreadable ++ [entry.sequence] } := by
  have hmap : (rows ++ [entry]).filterMap (wanted query) = rows.filterMap (wanted query) := by
    rw [List.filterMap_append, List.filterMap_cons, hwanted, List.filterMap_nil, List.append_nil]
  refine ⟨by rw [hmap]; exact h.handoffs, by rw [hmap]; exact h.seen, ?_, fun sequence => ?_⟩
  · dsimp only
    split
    · exact h.nodup
    · rename_i hnew
      refine List.nodup_append.2 ⟨h.nodup, List.nodup_singleton _, fun a ha b hb heq => hnew ?_⟩
      rw [← List.mem_singleton.1 hb, ← heq]
      exact ha
  · simp only [List.mem_append, List.mem_singleton, or_and_right, exists_or, exists_eq_left,
      hdamaged, true_and, ← h.unreadable]
    split
    · rename_i hold
      exact ⟨.inl, fun hor => hor.elim id fun heq => heq ▸ hold⟩
    · rw [List.mem_append, List.mem_singleton, eq_comm]

theorem Collects.add {query : HandoffQuery} {rows : List SequencedAuditEvent}
    {found : Collected} (h : Collects query rows found) (entry : SequencedAuditEvent) :
    Collects query (rows ++ [entry]) (collectEntry query found entry) := by
  simp only [collectEntry]
  split
  · rename_i hread
    have hwanted : wanted query entry = none := if_neg fun hcond => by
      rw [hread] at hcond
      exact absurd hcond.1 Bool.false_ne_true
    have hdamaged : damaged query entry = couldBelong query entry := by
      rw [damaged, hread, Bool.not_false, Bool.true_and]
    split
    · rename_i hbelongs
      exact h.addDamaged hwanted (hdamaged.trans hbelongs)
    · rename_i hbelongs
      exact h.skip (.inl hwanted) (hdamaged.trans (Bool.eq_false_iff.2 hbelongs))
  · rename_i hread
    rw [Bool.not_eq_false] at hread
    have hdamaged : damaged query entry = false := by
      rw [damaged, hread, Bool.not_true, Bool.false_and]
    have hcases : wanted query entry = none ∨ wanted query entry = some (handoffOf entry) := by
      simp only [wanted]
      split
      · exact .inr rfl
      · exact .inl rfl
    split
    · rename_i hseen
      exact h.skip (hcases.imp_right fun hsome => ⟨_, hsome, hseen⟩) hdamaged
    split
    · rename_i hrepository
      refine h.skip (.inl (if_neg fun hcond => ?_)) hdamaged
      cases hq : query.repositoryId with
      | none => rw [hq] at hrepository; exact absurd hrepository Bool.false_ne_true
      | some repositoryId =>
        rw [hq] at hrepository hcond
        exact of_decide_eq_true hrepository (of_decide_eq_true hcond.2.1)
    split
    · rename_i htouches
      refine h.skip (.inl (if_neg fun hcond => ?_)) hdamaged
      rw [htouches] at hcond
      exact absurd hcond.2.2 Bool.false_ne_true
    · rename_i hnew hrepository htouches
      have hwanted : wanted query entry = some (handoffOf entry) := by
        refine if_pos ⟨hread, ?_, by rwa [Bool.not_eq_false] at htouches⟩
        cases hq : query.repositoryId with
        | none => rfl
        | some repositoryId =>
          rw [hq] at hrepository
          refine decide_eq_true ?_
          rw [Option.any_some, decide_eq_true_eq, not_not] at hrepository
          exact hrepository
      have hmap : (rows ++ [entry]).filterMap (wanted query) =
          rows.filterMap (wanted query) ++ [handoffOf entry] := by
        rw [List.filterMap_append, List.filterMap_cons, hwanted, List.filterMap_nil]
      refine ⟨?_, fun key => ?_, h.nodup, fun sequence => (h.unreadable sequence).trans ?_⟩
      · rw [hmap, uniqueBy_concat, if_neg fun hold => hnew ((h.seen _).2 hold)]
        exact congrArg (· ++ [handoffOf entry]) h.handoffs
      · rw [hmap, List.map_append, List.mem_append, List.mem_append, h.seen]
        rfl
      · simp only [List.mem_append, List.mem_singleton, or_and_right, exists_or, exists_eq_left,
          hdamaged, Bool.false_eq_true, false_and, or_false]

theorem foldl_collects (query : HandoffQuery) (rows : List SequencedAuditEvent) :
    Collects query rows (rows.foldl (collectEntry query) {}) := by
  induction rows using List.reverseRecOn with
  | nil =>
    refine ⟨rfl, fun key => Iff.rfl, List.nodup_nil, fun sequence => ⟨(fun h => by cases h), ?_⟩⟩
    rintro ⟨_, h, _⟩
    cases h
  | append_singleton rows entry ih =>
    rw [List.foldl_append]
    exact ih.add entry

/-- What is collected of the rows of a log is what the log says, newest first, however the
rows were read. -/
theorem collectHandoffs_log {query : HandoffQuery} {log rows : List SequencedAuditEvent}
    (hlog : Ascending SequencedAuditEvent.sequence log) (hmem : ∀ row, row ∈ rows ↔ row ∈ log) :
    (collectHandoffs rows query).handoffs =
        uniqueBy keyOf (log.reverse.filterMap (wanted query)) ∧
      (collectHandoffs rows query).unreadable.length = (log.filter (damaged query)).length := by
  have hfold := foldl_collects query (newestFirst SequencedAuditEvent.sequence rows)
  constructor
  · rw [collectHandoffs, hfold.handoffs, ← uniqueBy_newestFirst hlog hmem]
    refine uniqueBy_filterMap fun x hx y hy hkey => ?_
    rw [hlog.eq_of_key ((hmem x).1 (mem_newestFirst.1 hx)) ((hmem y).1 (mem_newestFirst.1 hy)) hkey]
  · have hnodup : ((log.filter (damaged query)).map SequencedAuditEvent.sequence).Nodup :=
      List.pairwise_map.2 ((hlog.filter _).imp fun hlt => Nat.ne_of_lt hlt)
    have hperm : (collectHandoffs rows query).unreadable.Perm
        ((log.filter (damaged query)).map SequencedAuditEvent.sequence) := by
      refine (List.perm_ext_iff_of_nodup hfold.nodup hnodup).2 fun sequence => ?_
      rw [hfold.unreadable, List.mem_map]
      simp only [mem_newestFirst, hmem, List.mem_filter, and_assoc]
    rw [hperm.length_eq, List.length_map]

/-! ## The whole record -/

section
variable (record : AuditRecord) (query : HandoffQuery)

/-- The rows of the record that the query selects, live and archived. -/
def selected : List SequencedAuditEvent := record.rows.filter (selects query)

open Classical in
/-- All readable handoffs of the record that match the query, newest first, each once. -/
noncomputable def allHandoffs : List Value :=
  unique ((selected record query).reverse.filterMap (wanted query))

/-- Two handoffs of one task that match the query were not written at one time. -/
def KeysApart : Prop :=
  ∀ row ∈ selected record query, ∀ other ∈ selected record query,
    ∀ handoff ∈ wanted query row, ∀ handoff' ∈ wanted query other,
      keyOf handoff = keyOf handoff' → handoff = handoff'

/-- An answer is one of the whole record, or says that it is not. -/
structure Whole (answer : HandoffRead) (readArchive : Bool) : Prop where
  handoffs : answer.incomplete = true ∨
    answer.handoffs = (allHandoffs record query).take query.limit
  unreadable : readArchive = true → answer.incomplete = false →
    answer.unreadable = ((selected record query).filter (damaged query)).length

/-- A compaction moves no selected row that the walk of the live log has not passed. -/
def Unpassed (world : World) : Event → Prop
  | .compact through =>
    match world.phase with
    | .live afterSequence _ => afterSequence = 0 ∨
        ∀ row ∈ (record.rows.take through).drop world.archived, selects query row = true →
          row.sequence ≤ afterSequence
    | _ => True
  | .page _ => True

variable {record query}

theorem selected_ascending : Ascending SequencedAuditEvent.sequence (selected record query) :=
  record.ordered.filter _

open Classical in
theorem uniqueBy_keyOf (h : KeysApart record query) {rows : List SequencedAuditEvent}
    (hrows : ∀ row ∈ rows, row ∈ selected record query) :
    uniqueBy keyOf (rows.filterMap (wanted query)) = unique (rows.filterMap (wanted query)) := by
  refine uniqueBy_eq_unique fun x hx y hy hkey => ?_
  obtain ⟨row, hrow, hx⟩ := List.mem_filterMap.1 hx
  obtain ⟨other, hother, hy⟩ := List.mem_filterMap.1 hy
  exact h row (hrows row hrow) other (hrows other hother) x hx y hy hkey

theorem answerOf_whole (h : KeysApart record query) {rows : List SequencedAuditEvent}
    (hmem : ∀ row, row ∈ rows ↔ row ∈ selected record query) (readArchive : Bool) :
    Whole record query (answerOf query rows false) readArchive := by
  obtain ⟨hhandoffs, hunreadable⟩ := collectHandoffs_log selected_ascending hmem
  refine ⟨.inr ?_, fun _ _ => hunreadable⟩
  rw [answerOf, hhandoffs, uniqueBy_keyOf h fun row hrow => List.mem_reverse.1 hrow]
  rfl

theorem answerOf_newest (h : KeysApart record query) {rows : List SequencedAuditEvent}
    {archived : Nat}
    (hmem : ∀ row, row ∈ rows ↔ row ∈ (record.rows.drop archived).filter (selects query))
    (hlimit : query.limit ≤ (collectHandoffs rows query).handoffs.length) :
    Whole record query (answerOf query rows false) false := by
  have hsplit : selected record query = (record.rows.take archived).filter (selects query) ++
      (record.rows.drop archived).filter (selects query) := by
    rw [← List.filter_append, List.take_append_drop]
    rfl
  have hlog : Ascending SequencedAuditEvent.sequence
      ((record.rows.drop archived).filter (selects query)) :=
    (List.Pairwise.sublist (List.drop_sublist _ _) record.ordered).filter _
  obtain ⟨hhandoffs, -⟩ := collectHandoffs_log hlog hmem
  refine ⟨.inr ?_, (fun h => by cases h)⟩
  rw [hhandoffs] at hlimit
  have hall : allHandoffs record query =
      uniqueBy keyOf ((selected record query).reverse.filterMap (wanted query)) :=
    (uniqueBy_keyOf h fun row hrow => List.mem_reverse.1 hrow).symm
  rw [answerOf, hhandoffs, hall, hsplit, List.reverse_append, List.filterMap_append]
  obtain ⟨rest, hrest⟩ : ∃ rest, uniqueBy keyOf
      (((record.rows.drop archived).filter (selects query)).reverse.filterMap (wanted query) ++
        ((record.rows.take archived).filter (selects query)).reverse.filterMap (wanted query)) =
      uniqueBy keyOf (((record.rows.drop archived).filter (selects query)).reverse.filterMap
        (wanted query)) ++ rest := uniqueBy_append _ _
  rw [hrest, List.take_append_of_le_length hlimit]

end

/-! ## What a read has seen -/

section
variable {record : AuditRecord} {query : HandoffQuery}

theorem mem_selected {row : SequencedAuditEvent} :
    row ∈ selected record query ↔ row ∈ record.rows ∧ selects query row = true :=
  List.mem_filter

theorem mem_take_of_le {row other : SequencedAuditEvent} {n : Nat} (hrow : row ∈ record.rows)
    (hother : other ∈ record.rows.take n) (hle : row.sequence ≤ other.sequence) :
    row ∈ record.rows.take n := by
  have hordered := record.ordered
  rw [← List.take_append_drop n record.rows] at hrow hordered
  rcases List.mem_append.1 hrow with hrow | hrow
  · exact hrow
  · have hlt := (List.pairwise_append.1 hordered).2.2 other hother row hrow
    omega

theorem not_mem_take_drop {row : SequencedAuditEvent} {n : Nat}
    (htake : row ∈ record.rows.take n) (hdrop : row ∈ record.rows.drop n) : False := by
  have hordered := record.ordered
  rw [← List.take_append_drop n record.rows] at hordered
  have hlt := (List.pairwise_append.1 hordered).2.2 row htake row hdrop
  omega

theorem mem_take_or_drop {row : SequencedAuditEvent} (n : Nat) (hrow : row ∈ record.rows) :
    row ∈ record.rows.take n ∨ row ∈ record.rows.drop n := by
  rwa [← List.mem_append, List.take_append_drop]

theorem mem_take_mono {row : SequencedAuditEvent} {m n : Nat} (hmn : m ≤ n)
    (h : row ∈ record.rows.take m) : row ∈ record.rows.take n :=
  (List.take_subset_take_left record.rows hmn) h

theorem drop_ascending (record : AuditRecord) (n : Nat) :
    Ascending SequencedAuditEvent.sequence (record.rows.drop n) :=
  List.Pairwise.sublist (List.drop_sublist _ _) record.ordered

theorem take_ascending (record : AuditRecord) (n : Nat) :
    Ascending SequencedAuditEvent.sequence (record.rows.take n) :=
  List.Pairwise.sublist (List.take_sublist _ _) record.ordered

theorem page_cases (query : HandoffQuery) (afterSequence : Nat)
    {table : List SequencedAuditEvent} (htable : Ascending SequencedAuditEvent.sequence table) :
    (∃ last ∈ table.filter (selects query),
      nextCursor afterSequence (listAuditEvents query table afterSequence) = some last.sequence ∧
      afterSequence < last.sequence ∧
      ∀ row, row ∈ listAuditEvents query table afterSequence ↔
        row ∈ table.filter (selects query) ∧ afterSequence < row.sequence ∧
          row.sequence ≤ last.sequence) ∨
    (nextCursor afterSequence (listAuditEvents query table afterSequence) = none ∧
      ∀ row, row ∈ listAuditEvents query table afterSequence ↔
        row ∈ table.filter (selects query) ∧ afterSequence < row.sequence) := by
  have hlog := htable.filter (selects query)
  rw [nextCursor, listAuditEvents]
  generalize hpage : pageAfter SequencedAuditEvent.sequence AUDIT_PAGE_SIZE afterSequence
    (table.filter (selects query)) = page
  have hbehind : ∀ row ∈ page, row ∈ table.filter (selects query) ∧
      afterSequence < row.sequence := by
    intro row hrow
    rw [← hpage] at hrow
    exact ⟨(List.mem_filter.1 (List.mem_of_mem_take hrow)).1, lt_of_mem_pageAfter hrow⟩
  have hshort : page.length < AUDIT_PAGE_SIZE → ∀ row, row ∈ page ↔
      row ∈ table.filter (selects query) ∧ afterSequence < row.sequence := by
    intro hlength row
    rw [← hpage] at hlength
    refine ⟨hbehind row, fun ⟨hrow, hlt⟩ => ?_⟩
    rw [← upTo_append_short hlog hlength, List.mem_append, hpage] at hrow
    refine hrow.resolve_left fun hpassed => ?_
    have hle := of_decide_eq_true (List.mem_filter.1 hpassed).2
    omega
  cases hlast : page.getLast? with
  | none =>
    have hnil := List.getLast?_eq_none_iff.1 hlast
    exact .inr ⟨rfl, hshort (by rw [hnil]; decide)⟩
  | some last =>
    have hmem := List.mem_of_getLast? hlast
    have hlt := (hbehind last hmem).2
    dsimp only
    by_cases hfull : page.length < AUDIT_PAGE_SIZE
    · exact .inr ⟨if_pos (.inl hfull), hshort hfull⟩
    · refine .inl ⟨last, (hbehind last hmem).1, if_neg (by omega), hlt, fun row => ?_⟩
      have hpassed := upTo_append_page hlog (hpage.symm ▸ hlast)
      rw [hpage] at hpassed
      constructor
      · intro hrow
        have hle : row ∈ upTo SequencedAuditEvent.sequence last.sequence
            (table.filter (selects query)) := hpassed ▸ List.mem_append_right _ hrow
        exact ⟨(hbehind row hrow).1, (hbehind row hrow).2,
          of_decide_eq_true (List.mem_filter.1 hle).2⟩
      · rintro ⟨hrow, hafter, hle⟩
        have hupTo : row ∈ upTo SequencedAuditEvent.sequence last.sequence
            (table.filter (selects query)) := List.mem_filter.2 ⟨hrow, decide_eq_true hle⟩
        rw [← hpassed, List.mem_append] at hupTo
        refine hupTo.resolve_left fun hbefore => ?_
        have hle := of_decide_eq_true (List.mem_filter.1 hbefore).2
        omega

end

/-! ## The run -/

section
variable {record : AuditRecord} {query : HandoffQuery}

/-- What a walk of the live log has read: selected rows, and of those up to its cursor all that
are not archived. -/
structure LiveWalk (record : AuditRecord) (query : HandoffQuery) (archived afterSequence : Nat)
    (read : List SequencedAuditEvent) : Prop where
  own : ∀ row ∈ read, row ∈ selected record query
  passed : ∀ row ∈ selected record query, row.sequence ≤ afterSequence →
    row ∈ read ∨ row ∈ record.rows.take archived

/-- The rows read are the newest up to the cursor: those behind the first `start` rows. -/
structure Newest (record : AuditRecord) (query : HandoffQuery)
    (start archived afterSequence : Nat) (read : List SequencedAuditEvent) : Prop where
  le : start ≤ archived
  read : ∀ row, row ∈ read ↔ row ∈ (record.rows.drop start).filter (selects query) ∧
    row.sequence ≤ afterSequence
  passed : ∀ row ∈ (record.rows.drop start).filter (selects query),
    row ∈ record.rows.take archived → row.sequence ≤ afterSequence

/-- What a walk of the archive has read, and what the walk of the live log before it had. -/
structure ArchiveWalk (record : AuditRecord) (query : HandoffQuery)
    (live : List SequencedAuditEvent) (archived afterSequence : Nat)
    (read : List SequencedAuditEvent) : Prop where
  liveOwn : ∀ row ∈ live, row ∈ selected record query
  own : ∀ row ∈ read, row ∈ selected record query
  passed : ∀ row ∈ selected record query, row.sequence ≤ afterSequence → row ∈ read
  rest : ∀ row ∈ selected record query, row ∈ live ∨ row ∈ record.rows.take archived

structure Sound (record : AuditRecord) (query : HandoffQuery) (world : World) : Prop where
  archived : world.archived ≤ record.rows.length
  walk : match world.phase with
    | .live afterSequence read =>
      LiveWalk record query world.archived afterSequence read ∧
        ∃ start, Newest record query start world.archived afterSequence read
    | .archive live afterSequence read =>
      ArchiveWalk record query live world.archived afterSequence read
    | .answered answer readArchive => Whole record query answer readArchive
    | .threw => True

theorem LiveWalk.compact {archived through afterSequence : Nat} {read : List SequencedAuditEvent}
    (h : LiveWalk record query archived afterSequence read) (hle : archived ≤ through) :
    LiveWalk record query through afterSequence read :=
  ⟨h.own, fun row hrow hpassed => (h.passed row hrow hpassed).imp_right (mem_take_mono hle)⟩

theorem mem_drop_selected {row : SequencedAuditEvent} {n : Nat} :
    row ∈ (record.rows.drop n).filter (selects query) ↔
      row ∈ record.rows.drop n ∧ selects query row = true := List.mem_filter

theorem Newest.compact {start archived through afterSequence : Nat}
    {read : List SequencedAuditEvent} (h : Newest record query start archived afterSequence read)
    (hle : archived ≤ through)
    (hmoved : ∀ row ∈ (record.rows.take through).drop archived, selects query row = true →
      row.sequence ≤ afterSequence) :
    Newest record query start through afterSequence read := by
  refine ⟨Nat.le_trans h.le hle, h.read, fun row hrow htake => ?_⟩
  have hmem : row ∈ (record.rows.take through).take archived ++
      (record.rows.take through).drop archived := by rwa [List.take_append_drop]
  rw [List.take_take, Nat.min_eq_left hle, List.mem_append] at hmem
  rcases hmem with hold | hnew
  · exact h.passed row hrow hold
  · exact hmoved row hnew (mem_drop_selected.1 hrow).2

theorem newest_start (archived : Nat) : Newest record query archived archived 0 [] := by
  refine ⟨Nat.le_refl _, fun row => ⟨(fun h => by cases h), fun ⟨hrow, hle⟩ => ?_⟩,
    fun row hrow htake => (not_mem_take_drop htake (mem_drop_selected.1 hrow).1).elim⟩
  have hpos := record.positive row (List.mem_of_mem_drop (mem_drop_selected.1 hrow).1)
  omega

theorem ArchiveWalk.compact {live read : List SequencedAuditEvent}
    {archived through afterSequence : Nat}
    (h : ArchiveWalk record query live archived afterSequence read) (hle : archived ≤ through) :
    ArchiveWalk record query live through afterSequence read :=
  ⟨h.liveOwn, h.own, h.passed, fun row hrow => (h.rest row hrow).imp_right (mem_take_mono hle)⟩

theorem afterLivePage_sound (hapart : KeysApart record query) {archived afterSequence : Nat}
    {read : List SequencedAuditEvent} (harchived : archived ≤ record.rows.length)
    (hwalk : LiveWalk record query archived afterSequence read)
    (hnewest : ∃ start, Newest record query start archived afterSequence read) :
    Sound record query ⟨archived, afterLivePage query afterSequence read
      (listAuditEvents query (record.rows.drop archived) afterSequence)⟩ := by
  obtain ⟨start, hstart⟩ := hnewest
  have hdrop : ∀ row ∈ (record.rows.drop archived).filter (selects query),
      row ∈ (record.rows.drop start).filter (selects query) := fun row hrow =>
    mem_drop_selected.2 ⟨(List.drop_subset_drop_left record.rows hstart.le)
      (mem_drop_selected.1 hrow).1, (mem_drop_selected.1 hrow).2⟩
  have hselected : ∀ n, ∀ row ∈ (record.rows.drop n).filter (selects query),
      row ∈ selected record query := fun n row hrow =>
    mem_selected.2 ⟨List.mem_of_mem_drop (mem_drop_selected.1 hrow).1, (mem_drop_selected.1 hrow).2⟩
  have hown : ∀ row ∈ read ++ listAuditEvents query (record.rows.drop archived) afterSequence,
      row ∈ selected record query := by
    intro row hrow
    rcases List.mem_append.1 hrow with hrow | hrow
    · exact hwalk.own row hrow
    · exact hselected archived row (List.mem_filter.1 (List.mem_of_mem_take hrow)).1
  rw [afterLivePage]
  rcases page_cases query afterSequence (drop_ascending record archived) with
    ⟨last, hlast, hcursor, hlt, hpage⟩ | ⟨hcursor, hpage⟩
  · rw [hcursor]
    refine ⟨harchived, ⟨hown, fun row hrow hle => ?_⟩, start, hstart.le, fun row => ?_,
      fun row hrow htake => Nat.le_trans (hstart.passed row hrow htake) (Nat.le_of_lt hlt)⟩
    · rcases mem_take_or_drop archived (mem_selected.1 hrow).1 with htake | hlive
      · exact .inr htake
      · by_cases hpassed : row.sequence ≤ afterSequence
        · exact (hwalk.passed row hrow hpassed).imp_left (List.mem_append_left _)
        · exact .inl (List.mem_append_right _ ((hpage row).2
            ⟨mem_drop_selected.2 ⟨hlive, (mem_selected.1 hrow).2⟩, by omega, hle⟩))
    · rw [List.mem_append, hstart.read, hpage]
      constructor
      · rintro (⟨hrow, hle⟩ | ⟨hrow, -, hle⟩)
        · exact ⟨hrow, by omega⟩
        · exact ⟨hdrop row hrow, hle⟩
      · rintro ⟨hrow, hle⟩
        by_cases hpassed : row.sequence ≤ afterSequence
        · exact .inl ⟨hrow, hpassed⟩
        · rcases mem_take_or_drop archived (mem_selected.1 (hselected start row hrow)).1 with
            htake | hlive
          · exact absurd (hstart.passed row hrow htake) hpassed
          · exact .inr ⟨mem_drop_selected.2 ⟨hlive, (mem_drop_selected.1 hrow).2⟩, by omega, hle⟩
  · rw [hcursor]
    dsimp only
    split
    · rename_i hlimit
      have hmem : ∀ row, row ∈ read ++ listAuditEvents query (record.rows.drop archived)
          afterSequence ↔ row ∈ (record.rows.drop start).filter (selects query) := by
        intro row
        rw [List.mem_append, hstart.read, hpage]
        constructor
        · rintro (⟨hrow, -⟩ | ⟨hrow, -⟩)
          · exact hrow
          · exact hdrop row hrow
        · intro hrow
          by_cases hpassed : row.sequence ≤ afterSequence
          · exact .inl ⟨hrow, hpassed⟩
          · rcases mem_take_or_drop archived (mem_selected.1 (hselected start row hrow)).1 with
              htake | hlive
            · exact absurd (hstart.passed row hrow htake) hpassed
            · exact .inr ⟨mem_drop_selected.2 ⟨hlive, (mem_drop_selected.1 hrow).2⟩, by omega⟩
      exact ⟨harchived, answerOf_newest hapart hmem hlimit⟩
    · refine ⟨harchived, hown, (fun _ h => by cases h), fun row hrow hle => ?_, fun row hrow => ?_⟩
      · have hpos := record.positive row (mem_selected.1 hrow).1
        omega
      · rcases mem_take_or_drop archived (mem_selected.1 hrow).1 with htake | hlive
        · exact .inr htake
        · by_cases hpassed : row.sequence ≤ afterSequence
          · exact (hwalk.passed row hrow hpassed).imp_left (List.mem_append_left _)
          · exact .inl (List.mem_append_right _ ((hpage row).2
              ⟨mem_drop_selected.2 ⟨hlive, (mem_selected.1 hrow).2⟩, by omega⟩))

theorem afterArchivePage_sound (hapart : KeysApart record query) {archived afterSequence : Nat}
    {live read : List SequencedAuditEvent} (harchived : archived ≤ record.rows.length)
    (hwalk : ArchiveWalk record query live archived afterSequence read) :
    Sound record query ⟨archived, afterArchivePage query live afterSequence read
      (listAuditEvents query (record.rows.take archived) afterSequence)⟩ := by
  have hselected : ∀ row ∈ (record.rows.take archived).filter (selects query),
      row ∈ selected record query := fun row hrow =>
    mem_selected.2 ⟨List.mem_of_mem_take (List.mem_filter.1 hrow).1, (List.mem_filter.1 hrow).2⟩
  have hown : ∀ row ∈ read ++ listAuditEvents query (record.rows.take archived) afterSequence,
      row ∈ selected record query := by
    intro row hrow
    rcases List.mem_append.1 hrow with hrow | hrow
    · exact hwalk.own row hrow
    · exact hselected row (List.mem_filter.1 (List.mem_of_mem_take hrow)).1
  rw [afterArchivePage]
  rcases page_cases query afterSequence (take_ascending record archived) with
    ⟨last, hlast, hcursor, hlt, hpage⟩ | ⟨hcursor, hpage⟩
  · rw [hcursor]
    refine ⟨harchived, hwalk.liveOwn, hown, fun row hrow hle => ?_, hwalk.rest⟩
    by_cases hpassed : row.sequence ≤ afterSequence
    · exact List.mem_append_left _ (hwalk.passed row hrow hpassed)
    · have htake := mem_take_of_le (mem_selected.1 hrow).1 (List.mem_filter.1 hlast).1 hle
      exact List.mem_append_right _ ((hpage row).2
        ⟨List.mem_filter.2 ⟨htake, (mem_selected.1 hrow).2⟩, by omega, hle⟩)
  · -- every archived row was read: with the live ones they are the record
    have hrest : ∀ row ∈ selected record query, row ∈ live ∨
        row ∈ read ++ listAuditEvents query (record.rows.take archived) afterSequence := by
      intro row hrow
      rcases hwalk.rest row hrow with hlive | htake
      · exact .inl hlive
      · by_cases hpassed : row.sequence ≤ afterSequence
        · exact .inr (List.mem_append_left _ (hwalk.passed row hrow hpassed))
        · exact .inr (List.mem_append_right _ ((hpage row).2
            ⟨List.mem_filter.2 ⟨htake, (mem_selected.1 hrow).2⟩, by omega⟩))
    rw [hcursor]
    dsimp only
    split
    · rename_i hnone
      rw [hnone] at hrest
      refine ⟨harchived, answerOf_whole hapart (fun row => ⟨hwalk.liveOwn row, fun hrow => ?_⟩) _⟩
      exact (hrest row hrow).resolve_right (by simp)
    · refine ⟨harchived, answerOf_whole hapart (fun row => ⟨fun hrow => ?_, fun hrow => ?_⟩) _⟩
      · exact (List.mem_append.1 hrow).elim (hwalk.liveOwn row) (hown row)
      · exact List.mem_append.2 (hrest row hrow)

theorem step_sound (hapart : KeysApart record query) (world : World) (event : Event)
    (world' : World) (h : Sound record query world) (hunpassed : Unpassed record query world event)
    (hstep : step record query world event = some world') : Sound record query world' := by
  obtain ⟨harchived, hwalk⟩ := h
  cases event with
  | compact through =>
    rw [step] at hstep
    split at hstep
    · rename_i hle
      rw [← Option.some.inj hstep]
      refine ⟨hle.2, ?_⟩
      rw [Unpassed] at hunpassed
      dsimp only at hwalk hunpassed ⊢
      cases hphase : world.phase with
      | live afterSequence read =>
        rw [hphase] at hwalk hunpassed
        obtain ⟨hlive, start, hnewest⟩ := hwalk
        refine ⟨hlive.compact hle.1, ?_⟩
        rcases hunpassed with rfl | hmoved
        · have hnil : read = [] := List.eq_nil_iff_forall_not_mem.2 fun row hrow => by
            obtain ⟨hmem, hzero⟩ := (hnewest.read row).1 hrow
            have hpos := record.positive row (List.mem_of_mem_drop (mem_drop_selected.1 hmem).1)
            omega
          rw [hnil]
          exact ⟨through, newest_start through⟩
        · exact ⟨start, hnewest.compact hle.1 hmoved⟩
      | archive live afterSequence read =>
        rw [hphase] at hwalk
        exact ArchiveWalk.compact hwalk hle.1
      | answered answer readArchive =>
        rw [hphase] at hwalk
        exact hwalk
      | threw => trivial
    · cases hstep
  | page ok =>
    cases hphase : world.phase with
    | live afterSequence read =>
      rw [hphase] at hwalk
      cases ok with
      | true =>
        rw [step, hphase, readPage, Option.map_some] at hstep
        rw [← Option.some.inj hstep]
        exact afterLivePage_sound hapart harchived hwalk.1 hwalk.2
      | false =>
        simp only [step, hphase] at hstep
        rw [← Option.some.inj hstep]
        exact ⟨harchived, trivial⟩
    | archive live afterSequence read =>
      rw [hphase] at hwalk
      cases ok with
      | true =>
        rw [step, hphase, readPage, Option.map_some] at hstep
        rw [← Option.some.inj hstep]
        exact afterArchivePage_sound hapart harchived hwalk
      | false =>
        simp only [step, hphase] at hstep
        rw [← Option.some.inj hstep]
        exact ⟨harchived, .inl rfl, fun _ h => by cases h⟩
    | answered answer readArchive =>
      cases ok <;> simp only [step, hphase, readPage, Option.map_none] at hstep <;> cases hstep
    | threw =>
      cases ok <;> simp only [step, hphase, readPage, Option.map_none] at hstep <;> cases hstep

def pagesLeft (record : AuditRecord) (query : HandoffQuery) (world : World) : Nat :=
  let behind := fun afterSequence => ((selected record query).filter fun row =>
    decide (afterSequence < row.sequence)).length
  match world.phase with
  | .live afterSequence _ => behind 0 + behind afterSequence + 2
  | .archive _ afterSequence _ => behind afterSequence + 1
  | .answered _ _ | .threw => 0

theorem behind_lt {afterSequence : Nat} {last : SequencedAuditEvent}
    (hlast : last ∈ selected record query) (hlt : afterSequence < last.sequence) :
    ((selected record query).filter fun row => decide (last.sequence < row.sequence)).length <
      ((selected record query).filter fun row => decide (afterSequence < row.sequence)).length := by
  have hsub : (selected record query).filter (fun row => decide (last.sequence < row.sequence)) =
      ((selected record query).filter fun row => decide (afterSequence < row.sequence)).filter
        fun row => decide (last.sequence < row.sequence) := by
    rw [List.filter_filter]
    refine List.filter_congr fun row _ => ?_
    by_cases hrow : last.sequence < row.sequence
    · simp [hrow, Nat.lt_trans hlt hrow]
    · simp [hrow]
  rw [hsub, List.length_filter_lt_length_iff_exists]
  exact ⟨last, List.mem_filter.2 ⟨hlast, decide_eq_true hlt⟩, by simp⟩

/-- Every page leaves fewer to ask for. -/
theorem page_pagesLeft {world world' : World} {ok : Bool}
    (hstep : step record query world (.page ok) = some world') :
    pagesLeft record query world' < pagesLeft record query world := by
  have hle : ∀ afterSequence, ((selected record query).filter fun row =>
      decide (afterSequence < row.sequence)).length ≤ ((selected record query).filter fun row =>
        decide (0 < row.sequence)).length := fun afterSequence => by
    rw [← List.countP_eq_length_filter, ← List.countP_eq_length_filter]
    exact List.countP_mono_left fun row _ hrow => decide_eq_true
      (Nat.lt_of_le_of_lt (Nat.zero_le _) (of_decide_eq_true hrow))
  cases hphase : world.phase with
  | live afterSequence read =>
    cases ok with
    | true =>
      rw [step, hphase, readPage, Option.map_some] at hstep
      rw [← Option.some.inj hstep]
      simp only [pagesLeft, hphase, afterLivePage]
      rcases page_cases query afterSequence (drop_ascending record world.archived) with
        ⟨last, hlast, hcursor, hlt, -⟩ | ⟨hcursor, -⟩
      · rw [hcursor]
        have hmem := mem_selected.2 ⟨List.mem_of_mem_drop (List.mem_filter.1 hlast).1,
          (List.mem_filter.1 hlast).2⟩
        have hlt' := behind_lt hmem hlt
        dsimp only
        omega
      · rw [hcursor]
        have hbehind := hle afterSequence
        by_cases hlimit : query.limit ≤ (collectHandoffs (read ++ listAuditEvents query
            (record.rows.drop world.archived) afterSequence) query).handoffs.length
        · simp only [if_pos hlimit]
          exact Nat.succ_pos _
        · simp only [if_neg hlimit]
          omega
    | false =>
      simp only [step, hphase] at hstep
      rw [← Option.some.inj hstep]
      simp only [pagesLeft, hphase]
      exact Nat.succ_pos _
  | archive live afterSequence read =>
    cases ok with
    | true =>
      rw [step, hphase, readPage, Option.map_some] at hstep
      rw [← Option.some.inj hstep]
      simp only [pagesLeft, hphase, afterArchivePage]
      rcases page_cases query afterSequence (take_ascending record world.archived) with
        ⟨last, hlast, hcursor, hlt, -⟩ | ⟨hcursor, -⟩
      · rw [hcursor]
        have hmem := mem_selected.2 ⟨List.mem_of_mem_take (List.mem_filter.1 hlast).1,
          (List.mem_filter.1 hlast).2⟩
        have hlt' := behind_lt hmem hlt
        dsimp only
        omega
      · rw [hcursor]
        by_cases hnone : read ++ listAuditEvents query (record.rows.take world.archived)
            afterSequence = []
        · simp only [if_pos hnone]
          exact Nat.succ_pos _
        · simp only [if_neg hnone]
          exact Nat.succ_pos _
    | false =>
      simp only [step, hphase] at hstep
      rw [← Option.some.inj hstep]
      simp only [pagesLeft, hphase]
      exact Nat.succ_pos _
  | answered answer readArchive =>
    cases ok <;> simp only [step, hphase, readPage, Option.map_none] at hstep <;> cases hstep
  | threw =>
    cases ok <;> simp only [step, hphase, readPage, Option.map_none] at hstep <;> cases hstep

def Event.isPage : Event → Bool
  | .page _ => true
  | .compact _ => false

theorem pages_run {world world' : World} {events : List Event}
    (hrun : run (step record query) world events = some world') :
    events.countP Event.isPage + pagesLeft record query world' ≤ pagesLeft record query world := by
  induction events generalizing world with
  | nil =>
    cases hrun
    simp
  | cons e events ih =>
    obtain ⟨next, hstep, hrest⟩ := run_cons hrun
    have hle := ih hrest
    cases e with
    | compact through =>
      have hsame : pagesLeft record query next = pagesLeft record query world := by
        rw [step, Option.ite_none_right_eq_some] at hstep
        rw [← Option.some.inj hstep.2]
        rfl
      rw [List.countP_cons_of_neg (by simp [Event.isPage])]
      omega
    | page ok =>
      have hlt := page_pagesLeft hstep
      rw [List.countP_cons_of_pos rfl]
      omega

/-- **A read ends.** Whatever is moved to the archive between its pages and whichever of them
fail, it asks for no more pages than twice the rows it selects and two. -/
theorem read_ends {archived : Nat} {events : List Event} {world : World}
    (hrun : run (step record query) ⟨archived, .live 0 []⟩ events = some world) :
    events.countP Event.isPage ≤ 2 * (selected record query).length + 2 := by
  have hle := pages_run hrun
  have hall : ∀ row ∈ selected record query, decide (0 < row.sequence) = true := fun row hrow =>
    decide_eq_true (record.positive row (mem_selected.1 hrow).1)
  simp only [pagesLeft, List.filter_eq_self.2 hall] at hle
  omega

end

/-! ## A compaction between two live pages -/

def handoffAt (time : Units) : Value :=
  .object [(ascii "version", .number one), (ascii "taskId", .string (ascii "t")),
    (ascii "objective", .string []), (ascii "repositoryId", .string (ascii "r")),
    (ascii "reason", .string []), (ascii "canonicalRevision", .string []),
    (ascii "createdAt", .string time), (ascii "completed", .array []), (ascii "open", .array []),
    (ascii "decisions", .array []), (ascii "gotchas", .array []), (ascii "nextSteps", .array [])]

/-- The row of a handoff that was written at its own time. -/
def rowAt (n : Nat) : SequencedAuditEvent :=
  ⟨n, HANDOFF_AUDIT_TYPE, none, none, .object [(ascii "handoff", handoffAt [UInt16.ofNat n])]⟩

def rowsUpTo (n : Nat) : List SequencedAuditEvent := (List.range n).map fun i => rowAt (i + 1)

theorem rowsUpTo_succ (n : Nat) : rowsUpTo (n + 1) = rowsUpTo n ++ [rowAt (n + 1)] := by
  rw [rowsUpTo, List.range_succ, List.map_append]
  rfl

theorem rowsUpTo_length (n : Nat) : (rowsUpTo n).length = n := by
  rw [rowsUpTo, List.length_map, List.length_range]

theorem mem_rowsUpTo {n : Nat} {row : SequencedAuditEvent} :
    row ∈ rowsUpTo n ↔ ∃ i < n, row = rowAt (i + 1) := by
  simp only [rowsUpTo, List.mem_map, List.mem_range, eq_comm]

theorem rowsUpTo_ordered (n : Nat) : Ascending SequencedAuditEvent.sequence (rowsUpTo n) :=
  List.pairwise_map.2 (List.pairwise_lt_range.imp fun h => Nat.succ_lt_succ h)

theorem rowsUpTo_positive (n : Nat) : ∀ row ∈ rowsUpTo n, 0 < row.sequence := by
  intro row hrow
  obtain ⟨i, -, rfl⟩ := mem_rowsUpTo.1 hrow
  exact Nat.succ_pos i

def handoffs (n : Nat) : AuditRecord := ⟨rowsUpTo n, rowsUpTo_ordered n, rowsUpTo_positive n⟩

/-- The two newest handoffs, whatever they are about. -/
def twoNewest : HandoffQuery := { limit := 2 }

theorem selects_rowAt (n : Nat) : selects twoNewest (rowAt n) = true := by
  simp only [selects, rowAt, twoNewest, decide_true, Option.all_none, Bool.and_self]

theorem wanted_rowAt (n : Nat) : wanted twoNewest (rowAt n) = some (handoffAt [UInt16.ofNat n]) :=
  rfl

theorem keyOf_handoffAt (time : Units) : keyOf (handoffAt time) = ascii "t" ++ 0 :: time := rfl

theorem two_newest {front : List SequencedAuditEvent} {m n : Nat}
    (hne : UInt16.ofNat m ≠ UInt16.ofNat n) :
    (uniqueBy keyOf ((front ++ [rowAt m] ++ [rowAt n]).reverse.filterMap (wanted twoNewest))).take
      2 = [handoffAt [UInt16.ofNat n], handoffAt [UInt16.ofNat m]] := by
  rw [List.reverse_append, List.reverse_append, List.reverse_singleton, List.reverse_singleton,
    List.singleton_append, List.singleton_append, List.filterMap_cons, wanted_rowAt,
    List.filterMap_cons, wanted_rowAt]
  simp only [uniqueBy]
  rw [List.filter_cons_of_pos]
  · rfl
  · simp only [keyOf_handoffAt, ne_eq, List.append_cancel_left_eq, List.cons.injEq, and_true,
      true_and, decide_eq_true_eq]
    exact hne

theorem handoffAt_inj {s t : Units} (h : handoffAt s = handoffAt t) : s = t := by
  have hkey := congrArg keyOf h
  rw [keyOf_handoffAt, keyOf_handoffAt, List.append_cancel_left_eq, List.cons.injEq] at hkey
  exact hkey.2

theorem filter_selects_rowsUpTo (n : Nat) :
    (rowsUpTo n).filter (selects twoNewest) = rowsUpTo n :=
  List.filter_eq_self.2 fun row hrow => by
    obtain ⟨i, -, rfl⟩ := mem_rowsUpTo.1 hrow
    exact selects_rowAt _

theorem handoffs_rows (n : Nat) : (handoffs n).rows = rowsUpTo n := rfl

theorem step_livePage (record : AuditRecord) (query : HandoffQuery) (archived cursor : Nat)
    (read : List SequencedAuditEvent) :
    step record query ⟨archived, .live cursor read⟩ (.page true) = some ⟨archived,
      afterLivePage query cursor read
        (listAuditEvents query (record.rows.drop archived) cursor)⟩ := rfl

theorem selected_handoffs (n : Nat) : selected (handoffs n) twoNewest = rowsUpTo n :=
  filter_selects_rowsUpTo n

theorem first_page :
    listAuditEvents twoNewest (rowsUpTo 5002) 0 = rowsUpTo 5000 := by
  rw [listAuditEvents, filter_selects_rowsUpTo, pageAfter,
    List.filter_eq_self.2 fun row hrow => decide_eq_true (rowsUpTo_positive _ row hrow), rowsUpTo,
    ← List.map_take, List.take_range]
  rfl

theorem second_page :
    listAuditEvents twoNewest ((rowsUpTo 5002).drop 5001) 5000 = [rowAt 5002] := by
  have hdrop : (rowsUpTo 5002).drop 5001 = [rowAt 5002] := by
    rw [rowsUpTo_succ 5001, List.drop_append, List.drop_of_length_le (by rw [rowsUpTo_length]),
      rowsUpTo_length, Nat.sub_self, List.drop_zero, List.nil_append]
  rw [listAuditEvents, hdrop, List.filter_cons_of_pos (selects_rowAt 5002)]
  rfl

/-- What the walk of the live log has read after the two pages. -/
def skipped : List SequencedAuditEvent := rowsUpTo 5000 ++ [rowAt 5002]

theorem skipped_ordered : Ascending SequencedAuditEvent.sequence skipped := by
  refine List.pairwise_append.2 ⟨rowsUpTo_ordered 5000, List.pairwise_singleton _ _, ?_⟩
  intro row hrow other hother
  obtain ⟨i, hi, rfl⟩ := mem_rowsUpTo.1 hrow
  rw [List.mem_singleton.1 hother]
  exact Nat.lt_of_le_of_lt hi (by decide)

theorem skipped_handoffs : ((collectHandoffs skipped twoNewest).handoffs.take 2) =
    [handoffAt [5002], handoffAt [5000]] := by
  rw [(collectHandoffs_log skipped_ordered fun _ => Iff.rfl).1, skipped, rowsUpTo_succ 4999,
    two_newest (by decide)]
  rfl

theorem handoffs_keysApart (n : Nat) : KeysApart (handoffs n) twoNewest := by
  intro row hrow other hother handoff hwanted handoff' hwanted' hkey
  rw [selected_handoffs] at hrow hother
  obtain ⟨i, -, rfl⟩ := mem_rowsUpTo.1 hrow
  obtain ⟨j, -, rfl⟩ := mem_rowsUpTo.1 hother
  rw [wanted_rowAt, Option.mem_some_iff] at hwanted hwanted'
  rw [← hwanted, ← hwanted'] at hkey ⊢
  rw [keyOf_handoffAt, keyOf_handoffAt, List.append_cancel_left_eq, List.cons.injEq] at hkey
  rw [hkey.2]

theorem all_handoffs : (allHandoffs (handoffs 5002) twoNewest).take 2 =
    [handoffAt [5002], handoffAt [5001]] := by
  have hunique := @uniqueBy_keyOf _ _ (handoffs_keysApart 5002)
    (selected (handoffs 5002) twoNewest).reverse fun row hrow => List.mem_reverse.1 hrow
  rw [allHandoffs, ← hunique, selected_handoffs, rowsUpTo_succ 5001, rowsUpTo_succ 5000,
    two_newest (by decide)]
  rfl

theorem read_ends_compacted : ∃ world,
    run (step (handoffs 1) twoNewest) ⟨0, .live 0 []⟩ [.page true, .compact 1, .page false] =
        some world ∧
      [Event.page true, .compact 1, .page false].countP Event.isPage ≤
        2 * (selected (handoffs 1) twoNewest).length + 2 :=
  ⟨_, rfl, @read_ends (handoffs 1) twoNewest 0 [.page true, .compact 1, .page false] _ rfl⟩

end AgenticGit.Coordinator.Handoffs
