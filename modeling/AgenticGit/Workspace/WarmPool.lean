import AgenticGit.Lib.Custody
import AgenticGit.Lib.OrderedMap
import AgenticGit.Lib.Runs

/- A pool of directories kept warm between tasks: `warm-pool.ts`.

   Correspondence (TypeScript ↔ Lean):
     an entry object                  ↔ a number, of the entry in `made`
     `entries` of the pool            ↔ `entries`, the numbers by repository
     entry.settling, not ended yet    ↔ what `Settling` it waits for
     await entry.settling, in closeIdle and drain ↔ `closing`
     await backend.advance(..)        ↔ `taking`
     what take answers                ↔ `handed`
     Date.now()                       ↔ `now` of the event

   A step is what runs between two awaits: `Event` has one for every call of the
   pool and one for every promise that settles, and they come in any order.

   What is proved: every directory retained is in one place, in the pool, being
   advanced, handed to a task or given up (`pool_one_owner`); it is handed out only
   after its own scrub answered clean, never after it was given up, and the pool
   never holds more than it may. What is offered and refused leaves the pool as it
   was, and nothing in the pool touches it (`run_untouched`). -/
namespace AgenticGit.Workspace.WarmPool
open AgenticGit.Places AgenticGit.Runs

/-! ## The pool -/

inductive WarmDependencies where
  | installed | present | absent | skipped | failed
  deriving DecidableEq, Repr

inductive WarmPrepareOutcome where
  | installed | present | absent
  deriving DecidableEq, Repr

def WarmPrepareOutcome.dependencies : WarmPrepareOutcome → WarmDependencies
  | .installed => .installed
  | .present => .present
  | .absent => .absent

inductive ScrubResult where
  | clean
  | dirty (reason : String)
  deriving DecidableEq, Repr

structure TaskWorkspace where
  path : String
  rootPath : String
  repositoryId : String
  taskId : String
  deriving DecidableEq, Repr

inductive EntryState where
  | pending | ready
  deriving DecidableEq, Repr

/-- What `settle` waits for: the scrub, its `runPrepare` that skips or prepares, a
    destruction, or nothing any more. -/
inductive Settling where
  | scrubbing | skipping | preparing | destroying | ended
  deriving DecidableEq, Repr

structure WarmEntry where
  workspace : TaskWorkspace
  /-- Whether the backend has `runInWorkspace`. -/
  runs : Bool
  retainedAt : Int
  state : EntryState
  dependencies : WarmDependencies
  settling : Settling
  deriving DecidableEq, Repr

def WarmEntry.waits (settling : Settling) (entry : WarmEntry) : WarmEntry :=
  { entry with settling := settling }

inductive Operation where
  | scrub | prepare | advance | destroy
  deriving DecidableEq, Repr

/-- A call on the directory of an entry. -/
structure Call where
  operation : Operation
  entry : Nat
  deriving DecidableEq, Repr

/-- What `take` answers a task with. -/
structure Handover where
  entry : Nat
  taskId : String
  workspace : TaskWorkspace
  dependencies : WarmDependencies
  deriving DecidableEq, Repr

structure WarmWorkspaceStats where
  hits : Nat
  misses : Nat
  retained : Nat
  discarded : Nat
  prepareFailures : Nat
  deriving DecidableEq, Repr

structure Pool where
  entries : OrderedMap String (List Nat)
  made : List WarmEntry
  stats : WarmWorkspaceStats
  prepareFailedFor : List String
  log : List String
  /-- The entries that a take is advancing, and for which task. -/
  taking : List (Nat × String)
  /-- The entries whose settling `closeIdle` or `drain` waits for. -/
  closing : List Nat
  handed : List Handover
  /-- The entries that `destroy` was called for. -/
  destroyed : List Nat
  /-- What the scrubs answered. -/
  answers : List (Nat × ScrubResult)
  calls : List Call

def Pool.empty : Pool := ⟨.empty, [], ⟨0, 0, 0, 0, 0⟩, [], [], [], [], [], [], [], []⟩

structure WarmWorkspacePoolOptions where
  perRepository : Nat
  idleMs : Int
  /-- Whether a prepare step is configured. -/
  prepare : Bool

/-- `this.entries.get(repositoryId) ?? []` -/
def Pool.listOf (s : Pool) (repositoryId : String) : List Nat :=
  (s.entries.get? repositoryId).getD []

def Pool.size (s : Pool) (repositoryId : String) : Nat := (s.listOf repositoryId).length

def Pool.prune (s : Pool) (repositoryId : String) (entries : List Nat) : Pool :=
  if entries.length = 0 then { s with entries := s.entries.delete repositoryId }
  else { s with entries := s.entries.set repositoryId entries }

def Pool.setEntry (s : Pool) (n : Nat) (f : WarmEntry → WarmEntry) : Pool :=
  { s with made := s.made.modify n f }

def Pool.call (s : Pool) (operation : Operation) (n : Nat) : Pool :=
  { s with calls := s.calls ++ [⟨operation, n⟩] }

def Pool.say (s : Pool) (line : String) : Pool := { s with log := s.log ++ [line] }

def Pool.count (s : Pool) (f : WarmWorkspaceStats → WarmWorkspaceStats) : Pool :=
  { s with stats := f s.stats }

def WarmWorkspaceStats.miss (x : WarmWorkspaceStats) : WarmWorkspaceStats :=
  { x with misses := x.misses + 1 }

def WarmWorkspaceStats.hit (x : WarmWorkspaceStats) : WarmWorkspaceStats :=
  { x with hits := x.hits + 1 }

def WarmWorkspaceStats.retain (x : WarmWorkspaceStats) : WarmWorkspaceStats :=
  { x with retained := x.retained + 1 }

def WarmWorkspaceStats.discard (x : WarmWorkspaceStats) : WarmWorkspaceStats :=
  { x with discarded := x.discarded + 1 }

def WarmWorkspaceStats.failPrepare (x : WarmWorkspaceStats) : WarmWorkspaceStats :=
  { x with prepareFailures := x.prepareFailures + 1 }

def WarmDependencies.text : WarmDependencies → String
  | .installed => "installed"
  | .present => "present"
  | .absent => "absent"
  | .skipped => "skipped"
  | .failed => "failed"

/-- The call of `destroyQuietly`: what it answers changes nothing. -/
def Pool.destroyQuietly (s : Pool) (n : Nat) : Pool :=
  { s with destroyed := s.destroyed ++ [n] }.call .destroy n

/-! ## The calls -/

/-- `retain`: whether the pool takes the directory, and the pool after it. -/
def retain (o : WarmWorkspacePoolOptions) (s : Pool) (workspace : TaskWorkspace) (runs : Bool)
    (now : Int) : Bool × Pool :=
  if o.perRepository = 0 then (false, s)
  else
    let existing := s.listOf workspace.repositoryId
    if existing.length ≥ o.perRepository then (false, s)
    else
      let n := s.made.length
      let entry : WarmEntry := ⟨workspace, runs, now, .pending, .skipped, .scrubbing⟩
      (true, ({ s with
        made := s.made ++ [entry]
        entries := s.entries.set workspace.repositoryId (existing ++ [n]) }.count
          .retain).call .scrub n)

def Pool.serves (s : Pool) (rootPath : String) (n : Nat) : Bool :=
  match s.made[n]? with
  | some entry => entry.state = .ready && entry.workspace.rootPath = rootPath
  | none => false

/-- `take`, up to its await. -/
def take (s : Pool) (repositoryId rootPath taskId : String) : Pool :=
  let candidates := s.listOf repositoryId
  match candidates.find? (s.serves rootPath) with
  | none => (s.count .miss).say ("[warm] " ++ repositoryId ++ " workspace miss")
  | some n =>
    let pruned := s.prune repositoryId (candidates.erase n)
    { pruned with taking := pruned.taking ++ [(n, taskId)] }.call .advance n

/-- `take`, when `advance` settles. -/
def advanced (s : Pool) (n : Nat) (taskId : String) (entry : WarmEntry)
    (outcome : Except String TaskWorkspace) : Pool :=
  let rest := { s with taking := s.taking.erase (n, taskId) }
  let repositoryId := entry.workspace.repositoryId
  match outcome with
  | .error message =>
    (((rest.count .discard).count .miss).say
      ("[warm] " ++ repositoryId ++ " workspace discarded: advance failed: " ++ message)
      ).destroyQuietly n
  | .ok workspace =>
    let handover : Handover := ⟨n, taskId, workspace, entry.dependencies⟩
    ({ rest with handed := rest.handed ++ [handover] }.count .hit).say
      ("[warm] " ++ repositoryId ++ " workspace hit (dependencies " ++
        entry.dependencies.text ++ ")")

def Pool.expired (o : WarmWorkspacePoolOptions) (s : Pool) (now : Int) (n : Nat) : Bool :=
  match s.made[n]? with
  | some entry => !decide (now - entry.retainedAt < o.idleMs)
  | none => false

/-- `closeIdle`, up to its await. -/
def closeIdle (o : WarmWorkspacePoolOptions) (s : Pool) (now : Int) : Pool :=
  { s with
    entries := s.entries.filterMapValues fun _ entries =>
      let kept := entries.filter fun n => !s.expired o now n
      if kept.length = 0 then none else some kept
    closing := s.closing ++ s.entries.values.flatten.filter fun n => s.expired o now n }

/-- `drain`, up to its await. -/
def drain (s : Pool) : Pool :=
  { s with entries := .empty, closing := s.closing ++ s.entries.values.flatten }

/-- `remove`: the entry leaves the list of its repository. -/
def Pool.remove (s : Pool) (repositoryId : String) (n : Nat) : Pool :=
  match s.entries.get? repositoryId with
  | none => s
  | some entries => s.prune repositoryId (entries.erase n)

/-- `settle`, when the scrub settles. -/
def scrubbed (o : WarmWorkspacePoolOptions) (s : Pool) (n : Nat) (entry : WarmEntry)
    (result : ScrubResult) : Pool :=
  let answered := { s with answers := s.answers ++ [(n, result)] }
  let repositoryId := entry.workspace.repositoryId
  match result with
  | .dirty reason =>
    ((((answered.remove repositoryId n).count .discard).say
      ("[warm] " ++ repositoryId ++ " workspace discarded: " ++ reason)).setEntry n
        (WarmEntry.waits .destroying)).destroyQuietly n
  | .clean =>
    if o.prepare && entry.runs then
      (answered.setEntry n (WarmEntry.waits .preparing)).call .prepare n
    else answered.setEntry n (WarmEntry.waits .skipping)

/-- The end of `settle`, with the dependencies that `runPrepare` answers. -/
def Pool.makeReady (s : Pool) (n : Nat) (dependencies : WarmDependencies) : Pool :=
  s.setEntry n fun entry =>
    { entry with dependencies := dependencies, state := .ready, settling := .ended }

/-- `runPrepare`, when the prepare step settles. -/
def prepared (s : Pool) (n : Nat) (entry : WarmEntry)
    (outcome : Except String WarmPrepareOutcome) : Pool :=
  match outcome with
  | .ok outcome => s.makeReady n outcome.dependencies
  | .error message =>
    let failed := s.count .failPrepare
    let repositoryId := entry.workspace.repositoryId
    let told :=
      if repositoryId ∈ failed.prepareFailedFor then failed
      else { failed with prepareFailedFor := failed.prepareFailedFor ++ [repositoryId] }.say
        ("[warm] " ++ repositoryId ++ " dependency preparation failed: " ++ message)
    told.makeReady n .failed

inductive Event where
  | retain (workspace : TaskWorkspace) (runs : Bool) (now : Int)
  | take (repositoryId rootPath taskId : String)
  | advanced (n : Nat) (taskId : String) (outcome : Except String TaskWorkspace)
  | closeIdle (now : Int)
  | drain
  /-- A scrub that fails answers as one that is not clean. -/
  | scrubbed (n : Nat) (result : ScrubResult)
  | skipped (n : Nat)
  | prepared (n : Nat) (outcome : Except String WarmPrepareOutcome)
  /-- The destruction that `settle` waits for has settled. -/
  | gone (n : Nat)
  /-- `closeIdle` or `drain` goes on when the settling of the entry has ended. -/
  | resumed (n : Nat)

def step (o : WarmWorkspacePoolOptions) (s : Pool) : Event → Option Pool
  | .retain workspace runs now => some (retain o s workspace runs now).2
  | .take repositoryId rootPath taskId => some (take s repositoryId rootPath taskId)
  | .advanced n taskId outcome =>
    if (n, taskId) ∈ s.taking then
      (s.made[n]?).map fun entry => advanced s n taskId entry outcome
    else none
  | .closeIdle now => some (closeIdle o s now)
  | .drain => some (drain s)
  | .scrubbed n result =>
    (s.made[n]?).bind fun entry =>
      if entry.settling = .scrubbing then some (scrubbed o s n entry result) else none
  | .skipped n =>
    (s.made[n]?).bind fun entry =>
      if entry.settling = .skipping then some (s.makeReady n .skipped) else none
  | .prepared n outcome =>
    (s.made[n]?).bind fun entry =>
      if entry.settling = .preparing then some (prepared s n entry outcome) else none
  | .gone n =>
    (s.made[n]?).bind fun entry =>
      if entry.settling = .destroying then
        some (s.setEntry n (WarmEntry.waits .ended))
      else none
  | .resumed n =>
    (s.made[n]?).bind fun entry =>
      if n ∈ s.closing ∧ entry.settling = .ended then
        some ({ s with closing := s.closing.erase n }.destroyQuietly n)
      else none

/-! ## The places -/

inductive Place where
  | pool
  | advancing (taskId : String)
  | handed (taskId : String)
  | givenUp

/-- Where an entry is. It is given up when `destroy` was called for it, or is to
    be called as soon as its settling ends. -/
def At (s : Pool) (n : Nat) : Place → Prop
  | .pool => ∃ repositoryId, n ∈ s.listOf repositoryId
  | .advancing taskId => (n, taskId) ∈ s.taking
  | .handed taskId => ∃ handover ∈ s.handed, handover.entry = n ∧ handover.taskId = taskId
  | .givenUp => n ∈ s.destroyed ∨ n ∈ s.closing

/-- How an entry may pass from place to place. -/
inductive Passes : Place → Place → Prop where
  | take (taskId : String) : Passes .pool (.advancing taskId)
  | hand (taskId : String) : Passes (.advancing taskId) (.handed taskId)
  | fail (taskId : String) : Passes (.advancing taskId) .givenUp
  | giveUp : Passes .pool .givenUp
  | again : Passes .givenUp .givenUp

/-- What the settling of an entry says of its scrub. -/
structure Settled (s : Pool) (n : Nat) (entry : WarmEntry) : Prop where
  ready : entry.state = .ready → entry.settling = .ended ∧ (n, .clean) ∈ s.answers
  scrubbed : entry.settling = .skipping ∨ entry.settling = .preparing → (n, .clean) ∈ s.answers

structure Inv (o : WarmWorkspacePoolOptions) (s : Pool) : Prop where
  custody : Custody (· < s.made.length) (At s)
  nodup : ∀ repositoryId, (s.listOf repositoryId).Nodup
  bounded : ∀ repositoryId, s.size repositoryId ≤ o.perRepository
  listed : ∀ repositoryId, ∀ n ∈ s.listOf repositoryId,
    (s.made[n]?).map (fun entry => entry.workspace.repositoryId) = some repositoryId
  taking : (s.taking.map Prod.fst).Nodup
  handed : (s.handed.map Handover.entry).Nodup
  settled : ∀ n entry, s.made[n]? = some entry → Settled s n entry
  /-- What has left the pool for a task was ready. -/
  moved : ∀ n entry, s.made[n]? = some entry →
    (∃ taskId, At s n (.advancing taskId) ∨ At s n (.handed taskId)) → entry.state = .ready

/-- A call is on the directory of an entry that is not handed out. -/
def CallsKept (s t : Pool) : Prop :=
  ∃ fresh, t.calls = s.calls ++ fresh ∧
    ∀ c ∈ fresh, c.entry < t.made.length ∧ ∀ taskId, ¬ At t c.entry (.handed taskId)

/-- What a step does with the entries that were made before it, and what is new. -/
structure Steps (s t : Pool) (fresh : List TaskWorkspace) : Prop where
  stays : ∀ n place, (place = .givenUp ∨ ∃ taskId, place = .handed taskId) →
    At s n place → At t n place
  made : t.made.map WarmEntry.workspace = s.made.map WarmEntry.workspace ++ fresh
  calls : CallsKept s t

/-! ## The lists -/

theorem listOf_prune (s : Pool) (repositoryId other : String) (entries : List Nat) :
    (s.prune repositoryId entries).listOf other =
      if other = repositoryId then entries else s.listOf other := by
  rw [Pool.prune]
  split
  · rename_i hnil
    rw [List.length_eq_zero_iff] at hnil
    rw [Pool.listOf, OrderedMap.get?_delete, hnil]
    split <;> rfl
  · rw [Pool.listOf, OrderedMap.get?_set]
    split <;> rfl

theorem listOf_set (s : Pool) (repositoryId other : String) (entries : List Nat) :
    ((s.entries.set repositoryId entries).get? other).getD [] =
      if other = repositoryId then entries else s.listOf other := by
  rw [OrderedMap.get?_set]
  split <;> rfl

theorem listOf_remove (s : Pool) (repositoryId other : String) (n : Nat) :
    (s.remove repositoryId n).listOf other =
      if other = repositoryId then (s.listOf other).erase n else s.listOf other := by
  rw [Pool.remove]
  cases h : s.entries.get? repositoryId with
  | none =>
    dsimp only
    split
    · rename_i heq
      rw [heq, Pool.listOf, h]
      rfl
    · rfl
  | some entries =>
    dsimp only
    rw [listOf_prune]
    split
    · rename_i heq
      rw [heq, Pool.listOf, h]
      rfl
    · rfl

theorem remove_rest (s : Pool) (repositoryId : String) (n : Nat) :
    s.remove repositoryId n = { s with entries := (s.remove repositoryId n).entries } := by
  rw [Pool.remove]
  cases s.entries.get? repositoryId with
  | none => rfl
  | some entries =>
    dsimp only
    rw [Pool.prune]
    split <;> rfl

theorem prune_rest (s : Pool) (repositoryId : String) (entries : List Nat) :
    s.prune repositoryId entries =
      { s with entries := (s.prune repositoryId entries).entries } := by
  rw [Pool.prune]
  split <;> rfl

theorem listOf_closeIdle (o : WarmWorkspacePoolOptions) (s : Pool) (now : Int)
    (repositoryId : String) :
    (closeIdle o s now).listOf repositoryId =
      (s.listOf repositoryId).filter fun n => !s.expired o now n := by
  rw [Pool.listOf, closeIdle, OrderedMap.get?_filterMapValues, Pool.listOf]
  cases s.entries.get? repositoryId with
  | none => rfl
  | some entries =>
    dsimp only [Option.bind_some, Option.getD_some]
    split
    · rename_i hnil
      exact (List.length_eq_zero_iff.1 hnil).symm
    · rfl

theorem mem_values {s : Pool} {n : Nat} :
    n ∈ s.entries.values.flatten ↔ At s n .pool := by
  simp only [List.mem_flatten, OrderedMap.mem_values_iff, At, Pool.listOf]
  constructor
  · rintro ⟨entries, ⟨repositoryId, hget⟩, hn⟩
    exact ⟨repositoryId, by rwa [hget]⟩
  · rintro ⟨repositoryId, hn⟩
    cases hget : s.entries.get? repositoryId with
    | none =>
      rw [hget] at hn
      cases hn
    | some entries => exact ⟨entries, ⟨repositoryId, hget⟩, by rwa [hget] at hn⟩

/-! ## What changes no places -/

section
variable {o : WarmWorkspacePoolOptions} {s : Pool}

theorem Inv.call (h : Inv o s) (operation : Operation) (n : Nat) : Inv o (s.call operation n) :=
  ⟨h.custody, h.nodup, h.bounded, h.listed, h.taking, h.handed,
    fun m entry hm => ⟨(h.settled m entry hm).ready, (h.settled m entry hm).scrubbed⟩, h.moved⟩

theorem Inv.say (h : Inv o s) (line : String) : Inv o (s.say line) :=
  ⟨h.custody, h.nodup, h.bounded, h.listed, h.taking, h.handed,
    fun m entry hm => ⟨(h.settled m entry hm).ready, (h.settled m entry hm).scrubbed⟩, h.moved⟩

theorem Inv.count (h : Inv o s) (f : WarmWorkspaceStats → WarmWorkspaceStats) :
    Inv o (s.count f) :=
  ⟨h.custody, h.nodup, h.bounded, h.listed, h.taking, h.handed,
    fun m entry hm => ⟨(h.settled m entry hm).ready, (h.settled m entry hm).scrubbed⟩, h.moved⟩

theorem Inv.answer (h : Inv o s) (n : Nat) (result : ScrubResult) :
    Inv o { s with answers := s.answers ++ [(n, result)] } :=
  ⟨h.custody, h.nodup, h.bounded, h.listed, h.taking, h.handed,
    fun m entry hm => ⟨fun hready => ⟨((h.settled m entry hm).ready hready).1,
      List.mem_append_left _ ((h.settled m entry hm).ready hready).2⟩,
      fun hscrubbed => List.mem_append_left _ ((h.settled m entry hm).scrubbed hscrubbed)⟩,
    h.moved⟩

theorem getElem?_setEntry (s : Pool) (n m : Nat) (f : WarmEntry → WarmEntry) :
    (s.setEntry n f).made[m]? = if n = m then (s.made[m]?).map f else s.made[m]? := by
  rw [Pool.setEntry, List.getElem?_modify]
  split
  · rfl
  · simp

theorem workspaces_setEntry (s : Pool) (n : Nat) {f : WarmEntry → WarmEntry}
    (hf : ∀ entry, (f entry).workspace = entry.workspace) :
    (s.setEntry n f).made.map WarmEntry.workspace = s.made.map WarmEntry.workspace := by
  apply List.ext_getElem?
  intro m
  rw [List.getElem?_map, List.getElem?_map, getElem?_setEntry]
  split
  · rw [Option.map_map]
    exact congrArg (fun g => Option.map g s.made[m]?) (funext hf)
  · rfl

theorem Inv.setEntry (h : Inv o s) {n : Nat} {entry : WarmEntry} (hn : s.made[n]? = some entry)
    {f : WarmEntry → WarmEntry} (hf : ∀ entry, (f entry).workspace = entry.workspace)
    (hsettled : Settled s n (f entry)) (hready : entry.state = .ready → (f entry).state = .ready) :
    Inv o (s.setEntry n f) := by
  have hentry : ∀ m other, (s.setEntry n f).made[m]? = some other →
      (m = n ∧ other = f entry) ∨ s.made[m]? = some other := by
    intro m other hm
    rw [getElem?_setEntry] at hm
    split at hm
    · rename_i heq
      subst heq
      rw [hn] at hm
      exact .inl ⟨rfl, (Option.some.inj hm).symm⟩
    · exact .inr hm
  refine ⟨?_, h.nodup, h.bounded, fun repositoryId m hm => ?_, h.taking, h.handed,
    fun m other hm => ?_, fun m other hm hplace => ?_⟩
  · rw [show (s.setEntry n f).made.length = s.made.length from List.length_modify ..]
    exact h.custody
  · have hlisted := h.listed repositoryId m hm
    rw [getElem?_setEntry]
    split
    · rw [Option.map_map, ← hlisted]
      refine congrArg (fun g => Option.map g s.made[m]?) (funext fun other => ?_)
      rw [Function.comp, hf]
    · exact hlisted
  · rcases hentry m other hm with ⟨rfl, rfl⟩ | hold
    · exact ⟨hsettled.ready, hsettled.scrubbed⟩
    · exact ⟨(h.settled m other hold).ready, (h.settled m other hold).scrubbed⟩
  · rcases hentry m other hm with ⟨rfl, rfl⟩ | hold
    · exact hready (h.moved m entry hn hplace)
    · exact h.moved m other hold hplace

theorem CallsKept.refl (s : Pool) : CallsKept s s :=
  ⟨[], (List.append_nil _).symm, fun _ hc => (List.not_mem_nil hc).elim⟩

theorem steps_same {t : Pool} (hplaces : ∀ n place, At t n place ↔ At s n place)
    (hmade : t.made.map WarmEntry.workspace = s.made.map WarmEntry.workspace)
    (hcalls : t.calls = s.calls) : Steps s t [] :=
  ⟨fun n place _ hat => (hplaces n place).2 hat, hmade.trans (List.append_nil _).symm,
    ⟨[], by rw [hcalls, List.append_nil], fun _ hc => (List.not_mem_nil hc).elim⟩⟩

/-! ## Settling -/

theorem makeReady_inv (h : Inv o s) {n : Nat} {entry : WarmEntry} (hn : s.made[n]? = some entry)
    (hsettling : entry.settling = .skipping ∨ entry.settling = .preparing)
    (dependencies : WarmDependencies) : Inv o (s.makeReady n dependencies) := by
  refine h.setEntry hn (fun _ => rfl) ⟨fun _ => ⟨rfl, ?_⟩, fun hs => ?_⟩ fun _ => rfl
  · exact (h.settled n entry hn).scrubbed hsettling
  · rcases hs with hs | hs <;> cases hs

theorem makeReady_steps (s : Pool) (n : Nat) (dependencies : WarmDependencies) :
    Steps s (s.makeReady n dependencies) [] :=
  steps_same (fun _ _ => Iff.rfl) (workspaces_setEntry s n fun _ => rfl) rfl

theorem prepared_inv (h : Inv o s) {n : Nat} {entry : WarmEntry} (hn : s.made[n]? = some entry)
    (hsettling : entry.settling = .preparing) (outcome : Except String WarmPrepareOutcome) :
    Inv o (prepared s n entry outcome) := by
  cases outcome with
  | ok outcome => exact makeReady_inv h hn (.inr hsettling) _
  | error message =>
    rw [prepared]
    split
    · exact makeReady_inv (h.count _) hn (.inr hsettling) _
    · have hcount := h.count WarmWorkspaceStats.failPrepare
      have htold : Inv o { s.count .failPrepare with
          prepareFailedFor := s.prepareFailedFor ++ [entry.workspace.repositoryId] } :=
        ⟨hcount.custody, hcount.nodup, hcount.bounded, hcount.listed, hcount.taking,
          hcount.handed, fun m other hm => ⟨(hcount.settled m other hm).ready,
            (hcount.settled m other hm).scrubbed⟩, hcount.moved⟩
      exact makeReady_inv (htold.say _) hn (.inr hsettling) _

theorem prepared_steps (s : Pool) (n : Nat) (entry : WarmEntry)
    (outcome : Except String WarmPrepareOutcome) : Steps s (prepared s n entry outcome) [] := by
  cases outcome with
  | ok outcome => exact makeReady_steps s n _
  | error message =>
    rw [prepared]
    split
    · exact steps_same (fun _ _ => Iff.rfl) (workspaces_setEntry _ n fun _ => rfl) rfl
    · exact steps_same (fun _ _ => Iff.rfl) (workspaces_setEntry _ n fun _ => rfl) rfl

theorem gone_inv (h : Inv o s) {n : Nat} {entry : WarmEntry} (hn : s.made[n]? = some entry)
    (hsettling : entry.settling = .destroying) :
    Inv o (s.setEntry n (WarmEntry.waits .ended)) := by
  refine h.setEntry hn (fun _ => rfl) ⟨fun hready => ?_, fun hs => ?_⟩ fun hready => hready
  · exact absurd (hsettling.symm.trans ((h.settled n entry hn).ready hready).1) (by decide)
  · rcases hs with hs | hs <;> cases hs

theorem scrubbing_place (h : Inv o s) {n : Nat} {entry : WarmEntry} (hn : s.made[n]? = some entry)
    (hsettling : entry.settling = .scrubbing) : At s n .pool ∨ At s n .givenUp := by
  have hlt : n < s.made.length := (List.getElem?_eq_some_iff.1 hn).1
  have hpending : entry.state ≠ .ready := fun hready =>
    absurd (hsettling.symm.trans ((h.settled n entry hn).ready hready).1) (by decide)
  obtain ⟨place, hplace⟩ := h.custody.placed n hlt
  cases place with
  | pool => exact .inl hplace
  | advancing taskId => exact absurd (h.moved n entry hn ⟨taskId, .inl hplace⟩) hpending
  | handed taskId => exact absurd (h.moved n entry hn ⟨taskId, .inr hplace⟩) hpending
  | givenUp => exact .inr hplace

theorem stays_of_moves {t : Pool} {moved : Nat → Prop} {target : Place} (h : Inv o s)
    (hm : Moves Passes (At s) (At t) moved target) (n : Nat) (place : Place)
    (hlast : place = .givenUp ∨ ∃ taskId, place = .handed taskId) (hat : At s n place) :
    At t n place := by
  refine hm.stays_in h.custody (fun place' hpasses => ?_) hat
  rcases hlast with rfl | ⟨taskId, rfl⟩
  · cases hpasses
    rfl
  · cases hpasses

theorem remove_eq (s : Pool) (repositoryId : String) (n : Nat) :
    ∃ entries, s.remove repositoryId n = { s with entries := entries } ∧
      ∀ other, (entries.get? other).getD [] =
        if other = repositoryId then (s.listOf other).erase n else s.listOf other :=
  ⟨_, remove_rest s repositoryId n, fun other => listOf_remove s repositoryId other n⟩

theorem prune_eq (s : Pool) (repositoryId : String) (entries : List Nat) :
    ∃ pruned, s.prune repositoryId entries = { s with entries := pruned } ∧
      ∀ other, (pruned.get? other).getD [] =
        if other = repositoryId then entries else s.listOf other :=
  ⟨_, prune_rest s repositoryId entries, fun other => listOf_prune s repositoryId other entries⟩

theorem erased_list (h : Inv o s) {repositoryId : String} {n : Nat}
    (hn : (s.made[n]?).map (fun entry => entry.workspace.repositoryId) = some repositoryId)
    {lists : String → List Nat} (hlists : ∀ other, lists other =
      if other = repositoryId then (s.listOf other).erase n else s.listOf other) :
    (∀ other, (lists other).Nodup) ∧ (∀ other, (lists other).length ≤ o.perRepository) ∧
      ∀ other m, m ∈ lists other ↔ m ≠ n ∧ m ∈ s.listOf other := by
  refine ⟨fun other => ?_, fun other => ?_, fun other m => ?_⟩
  · rw [hlists]
    split
    · exact (h.nodup other).erase n
    · exact h.nodup other
  · rw [hlists]
    split
    · exact Nat.le_trans List.erase_sublist.length_le (h.bounded other)
    · exact h.bounded other
  · rw [hlists]
    split
    · exact (h.nodup other).mem_erase_iff
    · rename_i hne
      refine ⟨fun hm => ⟨?_, hm⟩, fun hm => hm.2⟩
      -- an entry is on the list of its own repository only
      rintro rfl
      exact hne (Option.some.inj ((h.listed other m hm).symm.trans hn))

theorem scrubbed_clean (h : Inv o s) {n : Nat} {entry : WarmEntry}
    (hn : s.made[n]? = some entry) (hsettling : entry.settling = .scrubbing) :
    Inv o (scrubbed o s n entry .clean) ∧ Steps s (scrubbed o s n entry .clean) [] := by
  have hlt : n < s.made.length := (List.getElem?_eq_some_iff.1 hn).1
  have hnot : entry.state ≠ .ready := fun hready =>
    absurd (hsettling.symm.trans ((h.settled n entry hn).ready hready).1) (by decide)
  have hgoes : ∀ settling, Inv o (Pool.setEntry { s with answers := s.answers ++ [(n, .clean)] } n
      (WarmEntry.waits settling)) := fun settling =>
    (h.answer n .clean).setEntry hn (fun _ => rfl) ⟨fun hready => absurd hready hnot,
      fun _ => List.mem_append_right _ List.mem_cons_self⟩ fun hready => hready
  have hmade : ∀ settling, (Pool.setEntry { s with answers := s.answers ++ [(n, .clean)] } n
      (WarmEntry.waits settling)).made.map WarmEntry.workspace =
        s.made.map WarmEntry.workspace := fun settling => workspaces_setEntry _ n fun _ => rfl
  rw [scrubbed]
  split
  · refine ⟨(hgoes .preparing).call .prepare n, fun m place _ hat => hat, ?_, ?_⟩
    · exact (hmade .preparing).trans (List.append_nil _).symm
    · refine ⟨[⟨.prepare, n⟩], rfl, fun c hc => ?_⟩
      obtain rfl := List.mem_singleton.1 hc
      refine ⟨?_, fun taskId hat => hnot (h.moved n entry hn ⟨taskId, .inr hat⟩)⟩
      show n < (s.made.modify n _).length
      rwa [List.length_modify]
  · exact ⟨hgoes .skipping, steps_same (fun _ _ => Iff.rfl) (hmade .skipping) rfl⟩

theorem calls_destroy {t : Pool} {n : Nat} (hcalls : t.calls = s.calls ++ [⟨.destroy, n⟩])
    (ht : Inv o t) (hgiven : At t n .givenUp) : CallsKept s t := by
  refine ⟨_, hcalls, fun c hc => ?_⟩
  obtain rfl := List.mem_singleton.1 hc
  refine ⟨ht.custody.known n _ hgiven, fun taskId hat => ?_⟩
  cases ht.custody.alone n _ _ hgiven hat

theorem Inv.shrink (h : Inv o s) {t : Pool} (hcustody : Custody (· < s.made.length) (At t))
    (hmade : t.made = s.made) (hanswers : t.answers = s.answers)
    (hlists : ∀ repositoryId, (t.listOf repositoryId).Sublist (s.listOf repositoryId))
    (htaking : t.taking.Sublist s.taking) (hhanded : t.handed = s.handed) : Inv o t := by
  refine ⟨hmade ▸ hcustody, fun repositoryId => (h.nodup repositoryId).sublist (hlists _),
    fun repositoryId => Nat.le_trans (hlists repositoryId).length_le (h.bounded repositoryId),
    fun repositoryId m hm => ?_, h.taking.sublist (htaking.map _), hhanded ▸ h.handed,
    fun m entry hm => ?_, fun m entry hm hplace => ?_⟩
  · rw [hmade]
    exact h.listed repositoryId m ((hlists repositoryId).subset hm)
  · rw [hmade] at hm
    exact ⟨hanswers ▸ (h.settled m entry hm).ready, hanswers ▸ (h.settled m entry hm).scrubbed⟩
  · rw [hmade] at hm
    obtain ⟨taskId, hplace⟩ := hplace
    refine h.moved m entry hm ⟨taskId, hplace.imp (fun hat => htaking.subset hat) fun hat => ?_⟩
    rw [At, hhanded] at hat
    exact hat

theorem scrubbed_dirty (h : Inv o s) {n : Nat} {entry : WarmEntry}
    (hn : s.made[n]? = some entry) (hsettling : entry.settling = .scrubbing) (reason : String) :
    Inv o (scrubbed o s n entry (.dirty reason)) ∧
      Steps s (scrubbed o s n entry (.dirty reason)) [] := by
  have hplace := scrubbing_place h hn hsettling
  have hnot : entry.state ≠ .ready := fun hready =>
    absurd (hsettling.symm.trans ((h.settled n entry hn).ready hready).1) (by decide)
  obtain ⟨entries, hremove, hlists⟩ := remove_eq { s with answers := s.answers ++
    [(n, .dirty reason)] } entry.workspace.repositoryId n
  obtain ⟨-, -, hmem⟩ := @erased_list _ _ h entry.workspace.repositoryId n
    (by rw [hn]; rfl) (fun other => (entries.get? other).getD []) hlists
  rw [scrubbed, hremove]
  -- the pool before its entry is marked
  generalize hu : ({ s with
    answers := s.answers ++ [(n, .dirty reason)]
    entries := entries
    destroyed := s.destroyed ++ [n] } : Pool) = u
  have hmoves : Moves Passes (At s) (At u) (fun m => m = n) .givenUp := by
    subst hu
    refine @Custody.moves _ _ _ _ _ _ _ _ h.custody (fun k => k = .pool ∨ k = .givenUp)
      ?_ ?_ ?_ ?_ ?_
    · rintro k (rfl | rfl)
      · exact .giveUp
      · exact .again
    · rintro m rfl
      exact hplace.elim (fun hp => ⟨_, .inl rfl, hp⟩) fun hg => ⟨_, .inr rfl, hg⟩
    · rintro m k (rfl | rfl) hk
      · show (∃ other, m ∈ (entries.get? other).getD []) ↔ _
        simp only [hmem, exists_and_left]
        rfl
      · exact absurd rfl hk
    · intro m k hk _
      cases k with
      | pool => exact absurd (.inl rfl) hk
      | givenUp => exact absurd (.inr rfl) hk
      | advancing taskId => exact Iff.rfl
      | handed taskId => exact Iff.rfl
    · intro m
      show m ∈ s.destroyed ++ [n] ∨ m ∈ s.closing ↔ m = n ∨ m ∈ s.destroyed ∨ m ∈ s.closing
      rw [List.mem_append, List.mem_singleton, or_right_comm, or_comm]
  have hinv : Inv o u := by
    refine (h.answer n (.dirty reason)).shrink (h.custody.move hmoves) ?_ ?_ ?_ ?_ ?_
    all_goals subst hu
    · rfl
    · rfl
    · intro other
      show ((entries.get? other).getD []).Sublist _
      rw [hlists]
      split
      · exact List.erase_sublist
      · exact List.Sublist.refl _
    · exact List.Sublist.refl _
    · rfl
  have hu_made : u.made = s.made := by rw [← hu]
  have hgoes : Inv o ((u.setEntry n (WarmEntry.waits .destroying))) :=
    hinv.setEntry (hu_made ▸ hn) (fun _ => rfl)
      ⟨fun hready => absurd hready hnot, fun hs => by rcases hs with hs | hs <;> cases hs⟩
      fun hready => hready
  have hgiven : At u n .givenUp := (hmoves.now n .givenUp).2 (.inl ⟨rfl, rfl⟩)
  have hstays := stays_of_moves h hmoves
  have hmade : (u.setEntry n (WarmEntry.waits .destroying)).made.map WarmEntry.workspace =
      s.made.map WarmEntry.workspace := by
    rw [@workspaces_setEntry u n (WarmEntry.waits .destroying) fun _ => rfl, hu_made]
  subst hu
  have hdone := ((hgoes.count WarmWorkspaceStats.discard).say ("[warm] " ++
    entry.workspace.repositoryId ++ " workspace discarded: " ++ reason)).call .destroy n
  exact ⟨hdone, hstays, hmade.trans (List.append_nil _).symm, calls_destroy rfl hdone hgiven⟩

/-! ## The calls -/

theorem serves_ready {n : Nat} {rootPath : String} (hserves : s.serves rootPath n = true) :
    ∃ entry, s.made[n]? = some entry ∧ entry.state = .ready := by
  rw [Pool.serves] at hserves
  cases hn : s.made[n]? with
  | none =>
    rw [hn] at hserves
    cases hserves
  | some entry =>
    rw [hn] at hserves
    simp only [Bool.and_eq_true, decide_eq_true_eq] at hserves
    exact ⟨entry, rfl, hserves.1⟩

/-- **A take**: a miss, or an entry that leaves the pool to be advanced. -/
theorem take_inv (h : Inv o s) (repositoryId rootPath taskId : String) :
    Inv o (take s repositoryId rootPath taskId) ∧
      Steps s (take s repositoryId rootPath taskId) [] := by
  rw [take]
  dsimp only
  split
  · exact ⟨(h.count _).say _, steps_same (fun _ _ => Iff.rfl) rfl rfl⟩
  · rename_i n hfind
    have hin : n ∈ s.listOf repositoryId := List.mem_of_find?_eq_some hfind
    obtain ⟨entry, hn, hready⟩ := serves_ready (List.find?_some hfind)
    have hpool : At s n .pool := ⟨repositoryId, hin⟩
    have hlt : n < s.made.length := (List.getElem?_eq_some_iff.1 hn).1
    obtain ⟨entries, hprune, hlists⟩ := prune_eq s repositoryId ((s.listOf repositoryId).erase n)
    have herased : ∀ other, (entries.get? other).getD [] =
        if other = repositoryId then (s.listOf other).erase n else s.listOf other := by
      intro other
      rw [hlists]
      split
      · rename_i heq
        rw [heq]
      · rfl
    obtain ⟨hnodup, hbounded, hmem⟩ := @erased_list _ _ h repositoryId n
      (h.listed repositoryId n hin) (fun other => (entries.get? other).getD []) herased
    rw [hprune]
    generalize hu : ({ s with
      entries := entries
      taking := s.taking ++ [(n, taskId)] } : Pool) = u
    have hmoves : Moves Passes (At s) (At u) (fun m => m = n) (.advancing taskId) := by
      subst hu
      refine @Custody.moves _ _ _ _ _ _ _ _ h.custody (fun k => k = .pool) ?_ ?_ ?_ ?_ ?_
      · rintro k rfl
        exact .take taskId
      · rintro m rfl
        exact ⟨_, rfl, hpool⟩
      · rintro m k rfl _
        show (∃ other, m ∈ (entries.get? other).getD []) ↔ _
        simp only [hmem, exists_and_left]
        rfl
      · intro m k hk hne
        cases k with
        | pool => exact absurd rfl hk
        | givenUp => exact Iff.rfl
        | handed other => exact Iff.rfl
        | advancing other =>
          show (m, other) ∈ s.taking ++ [(n, taskId)] ↔ (m, other) ∈ s.taking
          rw [List.mem_append, List.mem_singleton]
          refine ⟨fun hm => hm.resolve_right fun heq => ?_, .inl⟩
          rw [(Prod.mk.inj heq).2] at hne
          exact hne rfl
      · intro m
        show (m, taskId) ∈ s.taking ++ [(n, taskId)] ↔ m = n ∨ (m, taskId) ∈ s.taking
        rw [List.mem_append, List.mem_singleton, Prod.mk.injEq, or_comm]
        simp only [and_true]
    have hinv : Inv o u := by
      have hcustody := h.custody.move hmoves
      subst hu
      refine ⟨hcustody, hnodup, hbounded, fun other m hm => ?_, ?_, h.handed,
        fun m other hm => ⟨(h.settled m other hm).ready, (h.settled m other hm).scrubbed⟩,
        fun m other hm hplace => ?_⟩
      · exact h.listed other m ((hmem other m).1 hm).2
      · rw [List.map_append, List.map_singleton, List.nodup_append]
        refine ⟨h.taking, List.nodup_singleton _, fun m hm k hk heq => ?_⟩
        obtain ⟨⟨m', taskId'⟩, hm', rfl⟩ := List.mem_map.1 hm
        obtain rfl := heq.trans (List.mem_singleton.1 hk)
        cases h.custody.alone m' _ (.advancing taskId') hpool hm'
      · obtain ⟨other', hplace⟩ := hplace
        rcases hplace with hat | hat
        · rcases (hmoves.now m _).1 (show At _ m (.advancing other') from hat) with
            ⟨rfl, -⟩ | ⟨-, hat⟩
          · rw [hn] at hm
            exact Option.some.inj hm ▸ hready
          · exact h.moved m other hm ⟨other', .inl hat⟩
        · exact h.moved m other hm ⟨other', .inr hat⟩
    have hadvancing : At u n (.advancing taskId) := (hmoves.now n _).2 (.inl ⟨rfl, rfl⟩)
    have hstays := stays_of_moves h hmoves
    subst hu
    refine ⟨hinv.call .advance n, hstays, (List.append_nil _).symm, [⟨.advance, n⟩], rfl,
      fun c hc => ?_⟩
    obtain rfl := List.mem_singleton.1 hc
    refine ⟨hlt, fun other hat => ?_⟩
    cases hinv.custody.alone n (.advancing taskId) (.handed other) hadvancing hat

/-- **An advance settles**: the directory is handed to the task, or given up. -/
theorem advanced_inv (h : Inv o s) {n : Nat} {taskId : String} {entry : WarmEntry}
    (hn : s.made[n]? = some entry) (htaking : (n, taskId) ∈ s.taking)
    (outcome : Except String TaskWorkspace) :
    Inv o (advanced s n taskId entry outcome) ∧ Steps s (advanced s n taskId entry outcome) [] := by
  have hready := h.moved n entry hn ⟨taskId, .inl htaking⟩
  have hnodup : s.taking.Nodup := List.Nodup.of_map _ h.taking
  have herase : ∀ m other, (m, other) ∈ s.taking.erase (n, taskId) ↔
      m ≠ n ∧ (m, other) ∈ s.taking := by
    intro m other
    rw [hnodup.mem_erase_iff]
    refine ⟨fun hm => ⟨?_, hm.2⟩, fun hm => ⟨fun heq => hm.1 (Prod.mk.inj heq).1, hm.2⟩⟩
    rintro rfl
    have hplace := h.custody.alone m (.advancing other) (.advancing taskId) hm.2 htaking
    exact hm.1 (by rw [Place.advancing.inj hplace])
  cases outcome with
  | error message =>
    rw [advanced]
    generalize hu : ({ s with
      taking := s.taking.erase (n, taskId)
      destroyed := s.destroyed ++ [n] } : Pool) = u
    have hmoves : Moves Passes (At s) (At u) (fun m => m = n) .givenUp := by
      subst hu
      refine @Custody.moves _ _ _ _ _ _ _ _ h.custody (fun k => k = .advancing taskId)
        ?_ ?_ ?_ ?_ ?_
      · rintro k rfl
        exact .fail taskId
      · rintro m rfl
        exact ⟨_, rfl, htaking⟩
      · rintro m k rfl _
        exact herase m taskId
      · intro m k hk hne
        cases k with
        | pool => exact Iff.rfl
        | givenUp => exact absurd rfl hne
        | handed other => exact Iff.rfl
        | advancing other =>
          refine (herase m other).trans ⟨fun hm => hm.2, fun hm => ⟨?_, hm⟩⟩
          rintro rfl
          exact hk (h.custody.alone m _ _ hm htaking)
      · intro m
        show m ∈ s.destroyed ++ [n] ∨ m ∈ s.closing ↔ m = n ∨ m ∈ s.destroyed ∨ m ∈ s.closing
        rw [List.mem_append, List.mem_singleton, or_right_comm, or_comm]
    have hinv : Inv o u := by
      refine h.shrink (h.custody.move hmoves) ?_ ?_ ?_ ?_ ?_
      all_goals subst hu
      · rfl
      · rfl
      · exact fun _ => List.Sublist.refl _
      · exact List.erase_sublist
      · rfl
    have hgiven : At u n .givenUp := (hmoves.now n .givenUp).2 (.inl ⟨rfl, rfl⟩)
    have hstays := stays_of_moves h hmoves
    subst hu
    have hdone := (((hinv.count WarmWorkspaceStats.discard).count WarmWorkspaceStats.miss).say
      ("[warm] " ++ entry.workspace.repositoryId ++ " workspace discarded: advance failed: " ++
        message)).call .destroy n
    exact ⟨hdone, hstays, (List.append_nil _).symm, calls_destroy rfl hdone hgiven⟩
  | ok workspace =>
    rw [advanced]
    generalize hu : ({ s with
      taking := s.taking.erase (n, taskId)
      handed := s.handed ++ [⟨n, taskId, workspace, entry.dependencies⟩] } : Pool) = u
    have hmoves : Moves Passes (At s) (At u) (fun m => m = n) (.handed taskId) := by
      subst hu
      have hhanded : ∀ m other, At { s with
          taking := s.taking.erase (n, taskId)
          handed := s.handed ++ [⟨n, taskId, workspace, entry.dependencies⟩] } m
            (.handed other) ↔ (m = n ∧ other = taskId) ∨ At s m (.handed other) := by
        intro m other
        simp only [At, List.mem_append, List.mem_singleton, or_and_right, exists_or,
          exists_eq_left]
        rw [or_comm, eq_comm, @eq_comm _ taskId]
      refine @Custody.moves _ _ _ _ _ _ _ _ h.custody (fun k => k = .advancing taskId)
        ?_ ?_ ?_ ?_ ?_
      · rintro k rfl
        exact .hand taskId
      · rintro m rfl
        exact ⟨_, rfl, htaking⟩
      · rintro m k rfl _
        exact herase m taskId
      · intro m k hk hne
        cases k with
        | pool => exact Iff.rfl
        | givenUp => exact Iff.rfl
        | handed other =>
          refine (hhanded m other).trans ⟨fun hm => hm.resolve_left fun heq => ?_, .inr⟩
          exact hne (by rw [heq.2])
        | advancing other =>
          refine (herase m other).trans ⟨fun hm => hm.2, fun hm => ⟨?_, hm⟩⟩
          rintro rfl
          exact hk (h.custody.alone m _ _ hm htaking)
      · intro m
        rw [hhanded, eq_self_iff_true, and_true]
    have hinv : Inv o u := by
      have hcustody := h.custody.move hmoves
      subst hu
      refine ⟨hcustody, h.nodup, h.bounded, h.listed, h.taking.sublist (List.erase_sublist.map _),
        ?_, fun m other hm => ⟨(h.settled m other hm).ready, (h.settled m other hm).scrubbed⟩,
        fun m other hm hplace => ?_⟩
      · rw [List.map_append, List.map_singleton, List.nodup_append]
        refine ⟨h.handed, List.nodup_singleton _, fun m hm k hk heq => ?_⟩
        obtain ⟨handover, hin, rfl⟩ := List.mem_map.1 hm
        have hsame : handover.entry = n := heq.trans (List.mem_singleton.1 hk)
        cases h.custody.alone n (.advancing taskId) (.handed handover.taskId) htaking
          ⟨handover, hin, hsame, rfl⟩
      · obtain ⟨other', hplace⟩ := hplace
        by_cases hsame : m = n
        · subst hsame
          rw [hn] at hm
          exact Option.some.inj hm ▸ hready
        · refine h.moved m other hm ⟨other', hplace.imp (fun hat => ?_) fun hat => ?_⟩
          · exact ((herase m other').1 hat).2
          · rcases (hmoves.now m _).1 (show At _ m (.handed other') from hat) with
              ⟨heq, -⟩ | ⟨-, hat⟩
            · exact absurd heq hsame
            · exact hat
    have hstays := stays_of_moves h hmoves
    subst hu
    exact ⟨(hinv.count _).say _, hstays, (List.append_nil _).symm,
      [], (List.append_nil _).symm, fun _ hc => (List.not_mem_nil hc).elim⟩

theorem giveUp_inv (h : Inv o s) {t : Pool} {moved : Nat → Prop}
    (hmoved : ∀ m, moved m → At s m .pool)
    (hlists : ∀ repositoryId, (t.listOf repositoryId).Sublist (s.listOf repositoryId))
    (hpool : ∀ m, At t m .pool ↔ ¬ moved m ∧ At s m .pool)
    (hclosing : ∀ m, m ∈ t.closing ↔ moved m ∨ m ∈ s.closing)
    (hrest : t = { s with entries := t.entries, closing := t.closing }) :
    Inv o t ∧ Steps s t [] := by
  have hmoves : Moves Passes (At s) (At t) moved .givenUp := by
    refine @Custody.moves _ _ _ _ _ _ _ _ h.custody (fun k => k = .pool) ?_ ?_ ?_ ?_ ?_
    · rintro k rfl
      exact .giveUp
    · exact fun m hm => ⟨_, rfl, hmoved m hm⟩
    · rintro m k rfl _
      exact hpool m
    · intro m k hk hne
      cases k with
      | pool => exact absurd rfl hk
      | givenUp => exact absurd rfl hne
      | handed taskId => rw [hrest]; exact Iff.rfl
      | advancing taskId => rw [hrest]; exact Iff.rfl
    · intro m
      have hdestroyed : t.destroyed = s.destroyed := by rw [hrest]
      rw [At, At, hclosing, hdestroyed, or_left_comm]
  have hmade : t.made = s.made := by rw [hrest]
  refine ⟨h.shrink (h.custody.move hmoves) hmade (by rw [hrest]) hlists ?_ (by rw [hrest]),
    stays_of_moves h hmoves, (by rw [hmade, List.append_nil]), [], ?_,
    fun _ hc => (List.not_mem_nil hc).elim⟩
  · rw [hrest]
  · rw [hrest, List.append_nil]

theorem closeIdle_inv (h : Inv o s) (now : Int) :
    Inv o (closeIdle o s now) ∧ Steps s (closeIdle o s now) [] := by
  refine @giveUp_inv _ _ h _ (fun m => At s m .pool ∧ s.expired o now m = true)
    (fun m hm => hm.1) (fun repositoryId => ?_) (fun m => ?_) (fun m => ?_) rfl
  · rw [listOf_closeIdle]
    exact List.filter_sublist
  · simp only [At, listOf_closeIdle, List.mem_filter, Bool.not_eq_true', exists_and_right]
    by_cases hexpired : s.expired o now m = true
    · simp only [hexpired, and_true, Bool.true_eq_false, and_false, false_iff, not_and_or]
      tauto
    · rw [Bool.not_eq_true] at hexpired
      simp only [hexpired, and_true, Bool.false_eq_true, and_false, not_false_eq_true, true_and]
  · show m ∈ s.closing ++ _ ↔ _
    rw [List.mem_append, List.mem_filter, mem_values, or_comm]

theorem drain_inv (h : Inv o s) : Inv o (drain s) ∧ Steps s (drain s) [] := by
  refine @giveUp_inv _ _ h _ (fun m => At s m .pool) (fun m hm => hm) (fun repositoryId => ?_)
    (fun m => ?_) (fun m => ?_) rfl
  · exact List.nil_sublist _
  · refine ⟨fun ⟨repositoryId, hm⟩ => (List.not_mem_nil hm).elim, fun hm => absurd hm.2 hm.1⟩
  · show m ∈ s.closing ++ _ ↔ _
    rw [List.mem_append, mem_values, or_comm]

theorem resumed_inv (h : Inv o s) {n : Nat} (hn : n ∈ s.closing) :
    Inv o ({ s with closing := s.closing.erase n }.destroyQuietly n) ∧
      Steps s ({ s with closing := s.closing.erase n }.destroyQuietly n) [] := by
  generalize hu : ({ s with
    closing := s.closing.erase n
    destroyed := s.destroyed ++ [n] } : Pool) = u
  have hsame : ∀ m place, At u m place ↔ At s m place := by
    subst hu
    intro m place
    cases place with
    | pool => exact Iff.rfl
    | advancing taskId => exact Iff.rfl
    | handed taskId => exact Iff.rfl
    | givenUp =>
      show m ∈ s.destroyed ++ [n] ∨ m ∈ s.closing.erase n ↔ m ∈ s.destroyed ∨ m ∈ s.closing
      rw [List.mem_append, List.mem_singleton]
      constructor
      · rintro ((hm | rfl) | hm)
        · exact .inl hm
        · exact .inr hn
        · exact .inr (List.mem_of_mem_erase hm)
      · rintro (hm | hm)
        · exact .inl (.inl hm)
        · by_cases heq : m = n
          · exact .inl (.inr heq)
          · exact .inr ((List.mem_erase_of_ne heq).2 hm)
  have hcustody : Custody (· < s.made.length) (At u) :=
    ⟨fun m hm => (h.custody.placed m hm).imp fun place hat => (hsame m place).2 hat,
      fun m place place' hat hat' => h.custody.alone m place place' ((hsame m place).1 hat)
        ((hsame m place').1 hat'),
      fun m place hat => h.custody.known m place ((hsame m place).1 hat)⟩
  have hinv : Inv o u := by
    refine h.shrink hcustody ?_ ?_ ?_ ?_ ?_
    all_goals subst hu
    · rfl
    · rfl
    · exact fun _ => List.Sublist.refl _
    · exact List.Sublist.refl _
    · rfl
  have hgiven : At u n .givenUp := (hsame n .givenUp).2 (.inr hn)
  have hstays : ∀ m place, (place = .givenUp ∨ ∃ taskId, place = .handed taskId) →
      At s m place → At u m place := fun m place _ hat => (hsame m place).2 hat
  subst hu
  have hdone := hinv.call .destroy n
  exact ⟨hdone, hstays, (List.append_nil _).symm, calls_destroy rfl hdone hgiven⟩

theorem retain_refused {workspace : TaskWorkspace} {runs : Bool} {now : Int}
    (hrefused : (retain o s workspace runs now).1 = false) :
    (retain o s workspace runs now).2 = s := by
  rw [retain] at hrefused ⊢
  dsimp only at hrefused ⊢
  split
  · rfl
  · split
    · rfl
    · rename_i hsome hroom
      rw [if_neg hsome, if_neg hroom] at hrefused
      cases hrefused

/-- **A directory is retained**: it is the pool's newest. -/
theorem retain_accepted (h : Inv o s) {workspace : TaskWorkspace} {runs : Bool} {now : Int}
    (haccepted : (retain o s workspace runs now).1 = true) :
    Inv o (retain o s workspace runs now).2 ∧
      Steps s (retain o s workspace runs now).2 [workspace] ∧
      At (retain o s workspace runs now).2 s.made.length .pool := by
  rw [retain] at haccepted ⊢
  dsimp only at haccepted ⊢
  split at haccepted
  · cases haccepted
  rename_i hsome
  split at haccepted
  · cases haccepted
  rename_i hroom
  rw [if_neg hsome, if_neg hroom]
  dsimp only
  generalize hu : ({ s with
    made := s.made ++ [⟨workspace, runs, now, .pending, .skipped, .scrubbing⟩]
    entries := s.entries.set workspace.repositoryId
      (s.listOf workspace.repositoryId ++ [s.made.length]) } : Pool) = u
  have hlists : ∀ other, u.listOf other = if other = workspace.repositoryId then
      s.listOf workspace.repositoryId ++ [s.made.length] else s.listOf other := by
    subst hu
    exact fun other => listOf_set s _ other _
  have hold : ∀ other, s.made.length ∉ s.listOf other := by
    intro other hm
    exact Nat.lt_irrefl _ (h.custody.known s.made.length .pool ⟨other, hm⟩)
  have hmem : ∀ other m, m ∈ u.listOf other ↔
      (m = s.made.length ∧ other = workspace.repositoryId) ∨ m ∈ s.listOf other := by
    intro other m
    rw [hlists]
    split
    · rename_i heq
      rw [heq, List.mem_append, List.mem_singleton, or_comm]
      simp only [and_true]
    · rename_i hne
      exact ⟨.inr, fun hm => hm.resolve_left fun heq => hne heq.2⟩
  have hnow : ∀ m place, At u m place ↔ (m = s.made.length ∧ place = .pool) ∨ At s m place := by
    intro m place
    cases place with
    | pool =>
      simp only [At, hmem, exists_or, exists_and_left, exists_eq, and_true]
    | advancing taskId =>
      subst hu
      exact ⟨.inr, fun hat => hat.resolve_left fun heq => by cases heq.2⟩
    | handed taskId =>
      subst hu
      exact ⟨.inr, fun hat => hat.resolve_left fun heq => by cases heq.2⟩
    | givenUp =>
      subst hu
      exact ⟨.inr, fun hat => hat.resolve_left fun heq => by cases heq.2⟩
  have hmade : u.made = s.made ++ [⟨workspace, runs, now, .pending, .skipped, .scrubbing⟩] := by
    rw [← hu]
  have hlength : u.made.length = s.made.length + 1 := by
    rw [hmade, List.length_append, List.length_singleton]
  have hentry : ∀ m entry, u.made[m]? = some entry → s.made[m]? = some entry ∨
      (m = s.made.length ∧ entry = ⟨workspace, runs, now, .pending, .skipped, .scrubbing⟩) := by
    intro m entry hm
    rw [hmade, List.getElem?_append] at hm
    split at hm
    · exact .inl hm
    · rename_i hge
      have hlt := (List.getElem?_eq_some_iff.1 hm).1
      rw [List.length_singleton] at hlt
      have heq : m = s.made.length := by omega
      subst heq
      rw [Nat.sub_self] at hm
      exact .inr ⟨rfl, (Option.some.inj hm).symm⟩
  have hcustody : Custody (· < u.made.length) (At u) := by
    refine h.custody.admit (Nat.lt_irrefl _) (fun m => ?_) hnow
    rw [hlength, Nat.lt_succ_iff_lt_or_eq]
  have hinv : Inv o u := by
    refine ⟨hcustody, fun other => ?_, fun other => ?_, fun other m hm => ?_, ?_, ?_,
      fun m entry hm => ?_, fun m entry hm hplace => ?_⟩
    · rw [hlists]
      split
      · rw [List.nodup_append]
        refine ⟨h.nodup _, List.nodup_singleton _, fun m hm k hk heq => ?_⟩
        rw [List.mem_singleton] at hk
        exact hold _ (hk ▸ heq ▸ hm)
      · exact h.nodup other
    · rw [Pool.size, hlists]
      split
      · rw [List.length_append, List.length_singleton]
        omega
      · exact h.bounded other
    · rcases (hmem other m).1 hm with ⟨rfl, rfl⟩ | hm
      · rw [hmade, List.getElem?_concat_length]
        rfl
      · rw [hmade, List.getElem?_append_left (h.custody.known m .pool ⟨other, hm⟩)]
        exact h.listed other m hm
    · rw [← hu]
      exact h.taking
    · rw [← hu]
      exact h.handed
    · rcases hentry m entry hm with hm | ⟨rfl, rfl⟩
      · rw [← hu]
        exact ⟨(h.settled m entry hm).ready, (h.settled m entry hm).scrubbed⟩
      · exact ⟨(fun hready => by cases hready), fun hs => by rcases hs with hs | hs <;> cases hs⟩
    · obtain ⟨taskId, hplace⟩ := hplace
      have hbefore : At s m (.advancing taskId) ∨ At s m (.handed taskId) :=
        hplace.imp (fun hat => ((hnow m _).1 hat).resolve_left fun heq => by cases heq.2)
          fun hat => ((hnow m _).1 hat).resolve_left fun heq => by cases heq.2
      have hlt : m < s.made.length := hbefore.elim (h.custody.known m _) (h.custody.known m _)
      rcases hentry m entry hm with hm | ⟨rfl, -⟩
      · exact h.moved m entry hm ⟨taskId, hbefore⟩
      · exact absurd hlt (Nat.lt_irrefl _)
  have hpool : At u s.made.length .pool := (hnow _ _).2 (.inl ⟨rfl, rfl⟩)
  have hstays : ∀ m place, (place = .givenUp ∨ ∃ taskId, place = .handed taskId) →
      At s m place → At u m place := fun m place _ hat => (hnow m place).2 (.inr hat)
  have hworkspaces : u.made.map WarmEntry.workspace =
      s.made.map WarmEntry.workspace ++ [workspace] := by
    rw [hmade, List.map_append, List.map_singleton]
  subst hu
  refine ⟨(hinv.count _).call .scrub _, ⟨hstays, hworkspaces, [⟨.scrub, s.made.length⟩], rfl,
    fun c hc => ?_⟩, hpool⟩
  obtain rfl := List.mem_singleton.1 hc
  refine ⟨hcustody.known _ .pool hpool, fun taskId hat => ?_⟩
  cases hcustody.alone _ .pool (.handed taskId) hpool hat

/-! ## Steps and runs -/

def Event.offered : Event → List TaskWorkspace
  | .retain workspace _ _ => [workspace]
  | _ => []

theorem Event.offered_length (event : Event) : event.offered.length ≤ 1 := by
  cases event <;> simp [Event.offered]

/-- **A step keeps the invariant**, gives every entry a place it may pass to and makes
    an entry of nothing but what is offered. -/
theorem step_inv {t : Pool} {event : Event} (h : Inv o s) (hstep : step o s event = some t) :
    Inv o t ∧ ∃ fresh, Steps s t fresh ∧ fresh.Sublist event.offered := by
  suffices hmost : (Inv o t ∧ Steps s t []) ∨
      ∃ workspace runs now, event = .retain workspace runs now by
    rcases hmost with ⟨hinv, hsteps⟩ | ⟨workspace, runs, now, rfl⟩
    · exact ⟨hinv, [], hsteps, List.nil_sublist _⟩
    · obtain rfl := Option.some.inj hstep
      cases hanswer : (retain o s workspace runs now).1 with
      | false =>
        rw [retain_refused hanswer]
        exact ⟨h, [], ⟨fun _ _ _ hat => hat, (List.append_nil _).symm, .refl s⟩,
          List.nil_sublist _⟩
      | true =>
        obtain ⟨hinv, hsteps, -⟩ := retain_accepted h hanswer
        exact ⟨hinv, _, hsteps, List.Sublist.refl _⟩
  cases event with
  | retain workspace runs now => exact .inr ⟨workspace, runs, now, rfl⟩
  | take repositoryId rootPath taskId =>
    obtain rfl := Option.some.inj hstep
    exact .inl (take_inv h repositoryId rootPath taskId)
  | advanced n taskId outcome =>
    rw [step] at hstep
    split at hstep
    · rename_i htaking
      obtain ⟨entry, hn, rfl⟩ := Option.map_eq_some_iff.1 hstep
      exact .inl (advanced_inv h hn htaking outcome)
    · cases hstep
  | closeIdle now =>
    obtain rfl := Option.some.inj hstep
    exact .inl (closeIdle_inv h now)
  | drain =>
    obtain rfl := Option.some.inj hstep
    exact .inl (drain_inv h)
  | scrubbed n result =>
    obtain ⟨entry, hn, hstep⟩ := Option.bind_eq_some_iff.1 hstep
    split at hstep
    · rename_i hsettling
      obtain rfl := Option.some.inj hstep
      cases result with
      | clean => exact .inl (scrubbed_clean h hn hsettling)
      | dirty reason => exact .inl (scrubbed_dirty h hn hsettling reason)
    · cases hstep
  | skipped n =>
    obtain ⟨entry, hn, hstep⟩ := Option.bind_eq_some_iff.1 hstep
    split at hstep
    · rename_i hsettling
      obtain rfl := Option.some.inj hstep
      exact .inl ⟨makeReady_inv h hn (.inl hsettling) _, makeReady_steps s n _⟩
    · cases hstep
  | prepared n outcome =>
    obtain ⟨entry, hn, hstep⟩ := Option.bind_eq_some_iff.1 hstep
    split at hstep
    · rename_i hsettling
      obtain rfl := Option.some.inj hstep
      exact .inl ⟨prepared_inv h hn hsettling outcome, prepared_steps s n entry outcome⟩
    · cases hstep
  | gone n =>
    obtain ⟨entry, hn, hstep⟩ := Option.bind_eq_some_iff.1 hstep
    split at hstep
    · rename_i hsettling
      obtain rfl := Option.some.inj hstep
      exact .inl ⟨gone_inv h hn hsettling, steps_same (fun _ _ => Iff.rfl)
        (@workspaces_setEntry s n (WarmEntry.waits .ended) fun _ => rfl) rfl⟩
    · cases hstep
  | resumed n =>
    obtain ⟨entry, hn, hstep⟩ := Option.bind_eq_some_iff.1 hstep
    split at hstep
    · rename_i hclosing
      obtain rfl := Option.some.inj hstep
      exact .inl (resumed_inv h hclosing.1)
    · cases hstep

theorem empty_inv (o : WarmWorkspacePoolOptions) : Inv o Pool.empty := by
  have hnone : ∀ n place, ¬ At Pool.empty n place := by
    intro n place hat
    cases place with
    | pool =>
      obtain ⟨repositoryId, hn⟩ := hat
      exact List.not_mem_nil hn
    | advancing taskId => exact List.not_mem_nil hat
    | handed taskId =>
      obtain ⟨handover, hin, -⟩ := hat
      exact List.not_mem_nil hin
    | givenUp => exact hat.elim List.not_mem_nil List.not_mem_nil
  refine ⟨⟨fun n hn => absurd hn (Nat.not_lt_zero n), fun n place _ hat => ?_,
    fun n place hat => ?_⟩,
    fun _ => List.nodup_nil, fun _ => Nat.zero_le _, fun _ n hn => (List.not_mem_nil hn).elim,
    List.nodup_nil, List.nodup_nil, fun n entry hn => ?_, fun n entry hn => ?_⟩
  · exact absurd hat (hnone n place)
  · exact absurd hat (hnone n place)
  · cases hn
  · cases hn

theorem run_inv {t : Pool} {events : List Event} (h : Inv o s)
    (hrun : run (step o) s events = some t) : Inv o t :=
  run_keeps (fun _ _ _ hs hstep => (step_inv hs hstep).1) h hrun

theorem run_stays {t : Pool} {events : List Event} (h : Inv o s)
    (hrun : run (step o) s events = some t) {n : Nat} {place : Place}
    (hlast : place = .givenUp ∨ ∃ taskId, place = .handed taskId) (hat : At s n place) :
    At t n place := by
  refine (@run_keeps _ _ (step o) (fun u => Inv o u ∧ At u n place)
    (fun u event v hu hstep => ?_) _ _ _ ⟨h, hat⟩ hrun).2
  obtain ⟨hinv, fresh, hsteps, -⟩ := step_inv hu.1 hstep
  exact ⟨hinv, hsteps.stays n place hlast hu.2⟩

def Pool.pathOf (s : Pool) (n : Nat) : Option String :=
  (s.made.map WarmEntry.workspace)[n]?.map TaskWorkspace.path

/-- Every entry of the directory has been handed out: it is a task's, or nobody's yet. -/
def Free (s : Pool) (path : String) : Prop :=
  ∀ n, s.pathOf n = some path → ∃ taskId, At s n (.handed taskId)

theorem Steps.pathOf {t : Pool} {fresh : List TaskWorkspace} (h : Steps s t fresh) {n : Nat}
    {path : String} (hn : t.pathOf n = some path) :
    s.pathOf n = some path ∨ s.made.length ≤ n ∧ ∃ workspace ∈ fresh, workspace.path = path := by
  rw [Pool.pathOf, h.made, List.getElem?_append] at hn
  split at hn
  · exact .inl hn
  · rename_i hge
    rw [List.length_map] at hge
    obtain ⟨workspace, hworkspace, hpath⟩ := Option.map_eq_some_iff.1 hn
    exact .inr ⟨Nat.le_of_not_lt hge, workspace, List.mem_of_getElem? hworkspace, hpath⟩

theorem Steps.pathOf_eq {t : Pool} {fresh : List TaskWorkspace} (h : Steps s t fresh) {n : Nat}
    (hn : n < s.made.length) : t.pathOf n = s.pathOf n := by
  rw [Pool.pathOf, h.made, List.getElem?_append_left (by rwa [List.length_map])]
  rfl

theorem run_pathOf {t : Pool} {events : List Event} (h : Inv o s)
    (hrun : run (step o) s events = some t) {n : Nat} (hn : n < s.made.length) :
    t.pathOf n = s.pathOf n := by
  refine (@run_keeps _ _ (step o)
    (fun u => Inv o u ∧ n < u.made.length ∧ u.pathOf n = s.pathOf n)
    (fun u event v hu hstep => ?_) _ _ _ ⟨h, hn, rfl⟩ hrun).2.2
  obtain ⟨hinv, fresh, hsteps, -⟩ := step_inv hu.1 hstep
  refine ⟨hinv, ?_, (hsteps.pathOf_eq hu.2.1).trans hu.2.2⟩
  have hlength := congrArg List.length hsteps.made
  rw [List.length_append, List.length_map, List.length_map] at hlength
  have hlt := hu.2.1
  omega

/-- **Nothing in the pool touches a free directory** until it is offered again. -/
theorem run_untouched {t : Pool} {events : List Event} {path : String} (h : Inv o s)
    (hfree : Free s path)
    (hoffers : ∀ event ∈ events, ∀ workspace ∈ event.offered, workspace.path ≠ path)
    (hrun : run (step o) s events = some t) :
    Free t path ∧ ∃ fresh, t.calls = s.calls ++ fresh ∧
      ∀ c ∈ fresh, t.pathOf c.entry ≠ some path := by
  induction events generalizing s with
  | nil =>
    cases hrun
    exact ⟨hfree, [], (List.append_nil _).symm, fun _ hc => (List.not_mem_nil hc).elim⟩
  | cons event events ih =>
    rw [List.forall_mem_cons] at hoffers
    obtain ⟨u, hstep, hrun⟩ := run_cons hrun
    obtain ⟨hinv, made, hsteps, hmade⟩ := step_inv h hstep
    have hfree' : Free u path := by
      intro n hn
      rcases hsteps.pathOf hn with hn | ⟨-, workspace, hw, hpath⟩
      · obtain ⟨taskId, hat⟩ := hfree n hn
        exact ⟨taskId, hsteps.stays n _ (.inr ⟨taskId, rfl⟩) hat⟩
      · exact absurd hpath (hoffers.1 workspace (hmade.subset hw))
    obtain ⟨hlast, rest, hrest, hnot⟩ := ih hinv hfree' hoffers.2 hrun
    obtain ⟨first, hfirst, hcalls⟩ := hsteps.calls
    refine ⟨hlast, first ++ rest, by rw [hrest, hfirst, List.append_assoc], fun c hc hpath => ?_⟩
    rcases List.mem_append.1 hc with hc | hc
    · -- a call is on an entry that is not handed out, and all of this directory are
      rw [run_pathOf hinv hrun (hcalls c hc).1] at hpath
      obtain ⟨taskId, hat⟩ := hfree' c.entry hpath
      exact (hcalls c hc).2 taskId hat
    · exact hnot c hc hpath

theorem step_answers {t : Pool} {event : Event} (hstep : step o s event = some t) :
    ∀ n result, (n, result) ∈ t.answers → (n, result) ∈ s.answers ∨ event = .scrubbed n result := by
  have hkeeps : t.answers = s.answers → ∀ n result, (n, result) ∈ t.answers →
      (n, result) ∈ s.answers ∨ event = .scrubbed n result :=
    fun heq n result hin => .inl (heq ▸ hin)
  cases event with
  | retain workspace runs now =>
    obtain rfl := Option.some.inj hstep
    refine hkeeps ?_
    rw [retain]
    dsimp only
    split
    · rfl
    · split <;> rfl
  | take repositoryId rootPath taskId =>
    obtain rfl := Option.some.inj hstep
    refine hkeeps ?_
    rw [take]
    dsimp only
    split
    · rfl
    · rw [prune_rest]
      rfl
  | advanced n taskId outcome =>
    rw [step] at hstep
    split at hstep
    · obtain ⟨entry, hn, rfl⟩ := Option.map_eq_some_iff.1 hstep
      cases outcome <;> exact hkeeps rfl
    · cases hstep
  | closeIdle now =>
    obtain rfl := Option.some.inj hstep
    exact hkeeps rfl
  | drain =>
    obtain rfl := Option.some.inj hstep
    exact hkeeps rfl
  | scrubbed n result =>
    obtain ⟨entry, hn, hstep⟩ := Option.bind_eq_some_iff.1 hstep
    split at hstep
    · obtain rfl := Option.some.inj hstep
      have hnew : (scrubbed o s n entry result).answers = s.answers ++ [(n, result)] := by
        cases result with
        | clean =>
          rw [scrubbed]
          split <;> rfl
        | dirty reason =>
          rw [scrubbed, remove_rest]
          rfl
      intro m other hin
      rw [hnew, List.mem_append, List.mem_singleton] at hin
      refine hin.imp_right fun heq => ?_
      obtain ⟨rfl, rfl⟩ := Prod.mk.inj heq
      rfl
    · cases hstep
  | skipped n =>
    obtain ⟨entry, hn, hstep⟩ := Option.bind_eq_some_iff.1 hstep
    split at hstep
    · obtain rfl := Option.some.inj hstep
      exact hkeeps rfl
    · cases hstep
  | prepared n outcome =>
    obtain ⟨entry, hn, hstep⟩ := Option.bind_eq_some_iff.1 hstep
    split at hstep
    · obtain rfl := Option.some.inj hstep
      refine hkeeps ?_
      cases outcome with
      | ok outcome => rfl
      | error message =>
        rw [prepared]
        split <;> rfl
    · cases hstep
  | gone n =>
    obtain ⟨entry, hn, hstep⟩ := Option.bind_eq_some_iff.1 hstep
    split at hstep
    · obtain rfl := Option.some.inj hstep
      exact hkeeps rfl
    · cases hstep
  | resumed n =>
    obtain ⟨entry, hn, hstep⟩ := Option.bind_eq_some_iff.1 hstep
    split at hstep
    · obtain rfl := Option.some.inj hstep
      exact hkeeps rfl
    · cases hstep

theorem run_answers {t : Pool} {events : List Event} (hrun : run (step o) s events = some t)
    {n : Nat} {result : ScrubResult} (hin : (n, result) ∈ t.answers) :
    (n, result) ∈ s.answers ∨ .scrubbed n result ∈ events := by
  induction events generalizing s with
  | nil =>
    cases hrun
    exact .inl hin
  | cons event events ih =>
    obtain ⟨u, hstep, hrun⟩ := run_cons hrun
    rcases ih hrun with hin | hin
    · rcases step_answers hstep n result hin with hin | rfl
      · exact .inl hin
      · exact .inr List.mem_cons_self
    · exact .inr (List.mem_cons_of_mem _ hin)

/-! ## One owner -/

/-- The law of the pool in a state that the events have led to. -/
structure OneOwner (o : WarmWorkspacePoolOptions) (events : List Event) (s : Pool) : Prop where
  placed : ∀ n, n < s.made.length → ∃! place, At s n place
  /-- In the pool, with a take and with a task it is once. -/
  listed : ∀ repositoryId, (s.listOf repositoryId).Nodup
  advanced : (s.taking.map Prod.fst).Nodup
  handed : (s.handed.map Handover.entry).Nodup
  clean : ∀ n taskId, At s n (.advancing taskId) ∨ At s n (.handed taskId) →
    .scrubbed n .clean ∈ events
  /-- What waits to be destroyed can be as soon as its settling has ended. -/
  due : ∀ n ∈ s.closing, ∀ entry, s.made[n]? = some entry → entry.settling = .ended →
    ∃ t, step o s (.resumed n) = some t ∧ n ∈ t.destroyed
  bounded : ∀ repositoryId, s.size repositoryId ≤ o.perRepository

theorem run_oneOwner {events : List Event} (hrun : run (step o) Pool.empty events = some s) :
    OneOwner o events s := by
  have h := run_inv (empty_inv o) hrun
  refine ⟨fun n hn => h.custody.existsUnique hn, h.nodup, h.taking, h.handed,
    fun n taskId hat => ?_, fun n hn entry hentry hended => ?_, h.bounded⟩
  · have hlt : n < s.made.length := hat.elim (h.custody.known n _) (h.custody.known n _)
    obtain ⟨entry, hn⟩ : ∃ entry, s.made[n]? = some entry := ⟨_, List.getElem?_eq_getElem hlt⟩
    have hclean := ((h.settled n entry hn).ready (h.moved n entry hn ⟨taskId, hat⟩)).2
    exact (run_answers hrun hclean).resolve_left List.not_mem_nil
  · refine ⟨_, Option.bind_eq_some_iff.2 ⟨entry, hentry, if_pos ⟨hn, hended⟩⟩, ?_⟩
    exact List.mem_append_right _ List.mem_cons_self

/-- A task offers a directory that is its own: nobody's yet, or one it was handed. -/
def Offered (s : Pool) (event : Event) : Prop :=
  ∀ workspace ∈ event.offered, Free s workspace.path

theorem pathOf_lt {n : Nat} {path : String} (hn : s.pathOf n = some path) : n < s.made.length := by
  rw [Pool.pathOf, Option.map_eq_some_iff] at hn
  obtain ⟨workspace, hworkspace, -⟩ := hn
  have hlt := (List.getElem?_eq_some_iff.1 hworkspace).1
  rwa [List.length_map] at hlt

/-- **One agent to a directory**: when tasks offer their own, every entry of a
    directory but its last was handed out. -/
theorem run_one_agent {events : List Event}
    (hoffered : Throughout (step o) Offered Pool.empty events)
    (hrun : run (step o) Pool.empty events = some s) {n m : Nat} {path : String} (hlt : n < m)
    (hn : s.pathOf n = some path) (hm : s.pathOf m = some path) :
    ∃ taskId, At s n (.handed taskId) := by
  refine (@run_invariant _ _ (step o) Offered
    (fun u => Inv o u ∧ ∀ n m path, n < m → u.pathOf n = some path → u.pathOf m = some path →
      ∃ taskId, At u n (.handed taskId)) (fun u event v hu hfree hstep => ?_) _ _ _
    ⟨empty_inv o, fun n m path _ hn => by cases hn⟩ hoffered hrun).2 n m path hlt hn hm
  obtain ⟨hinv, fresh, hsteps, hfresh⟩ := step_inv hu.1 hstep
  refine ⟨hinv, fun n m path hlt hn hm => ?_⟩
  obtain ⟨taskId, hat⟩ : ∃ taskId, At u n (.handed taskId) := by
    have hbound := pathOf_lt hm
    have hlength := congrArg List.length hsteps.made
    rw [List.length_append, List.length_map, List.length_map] at hlength
    have hone := Nat.le_trans hfresh.length_le (Event.offered_length event)
    have hold : u.pathOf n = some path :=
      (hsteps.pathOf hn).resolve_right fun hnew => by omega
    rcases hsteps.pathOf hm with hm | ⟨-, workspace, hw, rfl⟩
    · exact hu.2 n m path hlt hold hm
    · exact hfree workspace (hfresh.subset hw) n hold
  exact ⟨taskId, hsteps.stays n _ (.inr ⟨taskId, rfl⟩) hat⟩

end

/-- **A pooled directory has one owner.** In whatever order the calls come and what
    they started settles: every directory retained is in one place, it goes to a
    task only after its own scrub answered clean, what is given up or handed out
    stays so, and where tasks offer only their own there is one agent to a
    directory. What is refused is left alone. -/
theorem pool_one_owner {o : WarmWorkspacePoolOptions} {events later : List Event} {s t : Pool}
    (hs : run (step o) Pool.empty events = some s) (ht : run (step o) s later = some t) :
    OneOwner o events s ∧
      (∀ n, At s n .givenUp → At t n .givenUp) ∧
      (∀ n taskId, At s n (.handed taskId) → At t n (.handed taskId)) ∧
      (Throughout (step o) Offered Pool.empty events → ∀ n m path, n < m →
        s.pathOf n = some path → s.pathOf m = some path → ∃ taskId, At s n (.handed taskId)) ∧
      (∀ workspace runs now, (retain o s workspace runs now).1 = true →
        At (retain o s workspace runs now).2 s.made.length .pool ∧
          (retain o s workspace runs now).2.pathOf s.made.length = some workspace.path) ∧
      ∀ workspace runs now, (retain o s workspace runs now).1 = false →
        (retain o s workspace runs now).2 = s ∧ (Free s workspace.path →
          (∀ event ∈ later, ∀ other ∈ event.offered, other.path ≠ workspace.path) →
            ∃ fresh, t.calls = s.calls ++ fresh ∧
              ∀ c ∈ fresh, t.pathOf c.entry ≠ some workspace.path) := by
  have h := run_inv (empty_inv o) hs
  refine ⟨run_oneOwner hs, fun n hat => run_stays h ht (.inl rfl) hat,
    fun n taskId hat => run_stays h ht (.inr ⟨taskId, rfl⟩) hat,
    fun hoffered n m path hlt hn hm => run_one_agent hoffered hs hlt hn hm,
    fun workspace runs now haccepted => ?_, fun workspace runs now hrefused => ?_⟩
  · obtain ⟨-, hsteps, hpool⟩ := retain_accepted h haccepted
    refine ⟨hpool, ?_⟩
    rw [Pool.pathOf, hsteps.made, ← List.length_map WarmEntry.workspace,
      List.getElem?_concat_length]
    rfl
  · exact ⟨retain_refused hrefused, fun hfree hoffers => (run_untouched h hfree hoffers ht).2⟩

/-- One directory to a repository, kept for an hour, with a prepare step. -/
def oneEach : WarmWorkspacePoolOptions := ⟨1, 3600000, true⟩

/-- A directory lands, is scrubbed and prepared, and goes to the next task. -/
def landing : List Event :=
  [.retain ⟨"/w/a", "/w", "repo", "t1"⟩ true 0, .take "repo" "/w" "t2",
    .retain ⟨"/w/b", "/w", "repo", "t3"⟩ true 1, .scrubbed 0 .clean, .prepared 0 (.ok .installed),
    .take "repo" "/w" "t4", .advanced 0 "t4" (.ok ⟨"/w/a", "/w", "repo", "t4"⟩)]

/-- It lands again, and the pool is drained while it is scrubbed. -/
def drained : List Event :=
  [.retain ⟨"/w/a", "/w", "repo", "t4"⟩ true 2, .drain, .scrubbed 1 (.dirty "left over"), .gone 1,
    .resumed 1]

theorem pool_one_owner_landing : ∃ s, run (step oneEach) Pool.empty landing = some s ∧
    OneOwner oneEach landing s ∧ At s 0 (.handed "t4") := by
  have hrun : ∃ s, run (step oneEach) Pool.empty landing = some s ∧
      (∃ t, run (step oneEach) s drained = some t) ∧ At s 0 (.handed "t4") := by
    refine ⟨_, rfl, ⟨_, rfl⟩, _, .head _, rfl, rfl⟩
  obtain ⟨s, hs, ⟨t, ht⟩, hat⟩ := hrun
  exact ⟨s, hs, (pool_one_owner hs ht).1, hat⟩

end AgenticGit.Workspace.WarmPool
