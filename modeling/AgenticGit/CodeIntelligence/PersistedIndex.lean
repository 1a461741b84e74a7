import Mathlib.Data.List.ReduceOption
import Mathlib.Logic.Function.Basic
import AgenticGit.Lib.Runs

/- The index file of a repository: how `prewarm` writes it, `loadPersisted` reads it
   back and `clear` forgets both (`persist`, `loadPersisted`, `clear` of the code
   intelligence service), in every order their awaits allow.

   What is proved:
     1. `persisted_forward` — the sequence in the file never decreases and the file is
        always one build's revision, blobs and index, in every run whose clears find
        no load, no waiting `persist` and no write under way.
     2. `persisted_backward` — with a clear while a write is queued, an older build
        replaces a newer one.

   Correspondence (TypeScript ↔ Lean):
     what runs between two awaits           ↔ one `Event`
     `loaded`, a map of promises            ↔ `loaded`, the load's number; the ones that
       have not settled are in `loads`
     `persisting`, the chain of writes      ↔ `writes`; the first one runs, and is `none`
       once its rename took effect
     a call of `index`                      ↔ it starts a build when the revision is not
       cached and not being built, whatever load it waited for
     the eviction of the oldest entry       ↔ `evict` of any entry
     the tree listing of a revision         ↔ `listing`: Git's objects do not change

   One repository and one process; its file is what an earlier process left. -/
namespace AgenticGit.CodeIntelligence.PersistedIndex
open AgenticGit.Runs

/-! ## The file and the service -/

/-- What `loadPersisted` compares with its own before it accepts a file. -/
structure FileHeader where
  version : Nat
  repositoryId : String
  maxFiles : Nat
  maxFileBytes : Nat
  maxTotalBytes : Nat
  deriving DecidableEq, Repr

abbrev Blobs := List (String × String)

structure CanonicalVersion where
  sequence : Nat
  revision : String
  deriving DecidableEq, Repr

/-- What one run of `build` listed and what it made of it. -/
structure Build (Index : Type) where
  revision : String
  blobs : Blobs
  index : Index
  deriving DecidableEq, Repr

structure PersistedIndexFile (Index : Type) where
  header : FileHeader
  sequence : Nat
  revision : String
  blobs : Blobs
  index : Index
  deriving DecidableEq, Repr

variable {Index : Type}

def PersistedIndexFile.build (file : PersistedIndexFile Index) : Build Index :=
  ⟨file.revision, file.blobs, file.index⟩

/-- A `loadPersisted` that has not settled: what `readFile` answered, once it did. -/
structure Load (Index : Type) where
  number : Nat
  read : Option (Option (PersistedIndexFile Index))

/-- A `persist` that awaits a load, with the payload it will write. -/
structure Persist (Index : Type) where
  load : Nat
  payload : PersistedIndexFile Index

structure Service (Index : Type) where
  header : FileHeader
  /-- The file on disk. -/
  file : Option (PersistedIndexFile Index)
  cache : String → Option Index
  blobsByKey : String → Option Blobs
  /-- The builds that run, each with whether it has listed the tree. -/
  inFlight : List (String × Bool)
  loads : List (Load Index)
  loaded : Option Nat
  /-- The number of the next load. -/
  nextLoad : Nat
  persistedSequence : Option Nat
  /-- The prewarms whose `index` has not answered. -/
  prewarming : List CanonicalVersion
  /-- The sequence of the last promotion. -/
  promoted : Option Nat
  waiting : List (Persist Index)
  writes : List (Option (PersistedIndexFile Index))
  /-- Every build that finished. -/
  built : List (Build Index)

namespace Service

/-- A process that has just started; `left` is the file it finds, of one build. -/
def start (listing : String → Blobs) (header : FileHeader)
    (left : Option (FileHeader × Nat × String × Index)) : Service Index :=
  let file := left.map fun (header, sequence, revision, index) =>
    ⟨header, sequence, revision, listing revision, index⟩
  { header, file
    cache := fun _ => none
    blobsByKey := fun _ => none
    inFlight := []
    loads := []
    loaded := none
    nextLoad := 0
    persistedSequence := none
    prewarming := []
    promoted := file.map PersistedIndexFile.sequence
    waiting := []
    writes := []
    built := file.toList.map PersistedIndexFile.build }

/-! ## What runs between two awaits -/

def prewarm (s : Service Index) (version : CanonicalVersion) : Option (Service Index) :=
  if s.promoted.all fun last => last < version.sequence then
    some { s with
      prewarming := s.prewarming ++ [version]
      promoted := some version.sequence }
  else none

def startBuild (s : Service Index) (revision : String) : Option (Service Index) :=
  if s.cache revision = none ∧ revision ∉ s.inFlight.map Prod.fst then
    some { s with inFlight := s.inFlight ++ [(revision, false)] }
  else none

/-- The build has its listing, which it holds for `persist`. -/
def listEntries (listing : String → Blobs) (s : Service Index) (revision : String) :
    Option (Service Index) :=
  if (revision, false) ∈ s.inFlight then
    some { s with
      inFlight := s.inFlight.map fun build =>
        if build = (revision, false) then (revision, true) else build
      blobsByKey := Function.update s.blobsByKey revision (some (listing revision)) }
  else none

def finishBuild (listing : String → Blobs) (s : Service Index) (revision : String)
    (index : Index) : Option (Service Index) :=
  if (revision, true) ∈ s.inFlight then
    some { s with
      inFlight := s.inFlight.filter fun build => build.1 ≠ revision
      cache := Function.update s.cache revision (some index)
      built := s.built ++ [⟨revision, listing revision, index⟩] }
  else none

def failBuild (s : Service Index) (revision : String) : Service Index :=
  { s with inFlight := s.inFlight.filter fun build => build.1 ≠ revision }

def evict (s : Service Index) (revision : String) : Service Index :=
  { s with
    cache := Function.update s.cache revision none
    blobsByKey := Function.update s.blobsByKey revision none }

/-- `loadPersisted` up to its first await: joins the load there is, or starts one. -/
def loadPersisted (s : Service Index) : Nat × Service Index :=
  match s.loaded with
  | some number => (number, s)
  | none =>
    (s.nextLoad, { s with
      loads := s.loads ++ [⟨s.nextLoad, none⟩]
      loaded := some s.nextLoad
      nextLoad := s.nextLoad + 1 })

/-- `readFile` reads the file, or fails. -/
def readLoad (s : Service Index) (number : Nat) (reads : Bool) : Service Index :=
  { s with loads := s.loads.map fun load =>
      if load.number = number ∧ load.read.isNone then
        { load with read := some (if reads then s.file else none) }
      else load }

def seed (s : Service Index) (payload : PersistedIndexFile Index) : Service Index :=
  { s with
    cache := Function.update s.cache payload.revision (some payload.index)
    blobsByKey := Function.update s.blobsByKey payload.revision (some payload.blobs)
    persistedSequence := some payload.sequence }

/-- The load settles. A file that is not accepted is treated as absent. -/
def finishLoad (s : Service Index) (number : Nat) : Option (Service Index) :=
  match s.loads.find? fun load => load.number = number with
  | some ⟨_, some read⟩ =>
    let settled := { s with loads := s.loads.filter fun load => load.number ≠ number }
    match read with
    | some payload => some (if payload.header = s.header then settled.seed payload else settled)
    | none => some settled
  | _ => none

/-- `persist` up to its first await. -/
def persist (s : Service Index) (version : CanonicalVersion) : Option (Service Index) :=
  if version ∈ s.prewarming then
    let s := { s with prewarming := s.prewarming.erase version }
    match s.cache version.revision, s.blobsByKey version.revision with
    | some index, some blobs =>
      let (load, s) := s.loadPersisted
      some { s with waiting := s.waiting ++
        [⟨load, s.header, version.sequence, version.revision, blobs, index⟩] }
    | _, _ => some s
  else none

/-- `persist` once its load has settled. -/
def persistLoaded (s : Service Index) (i : Nat) : Option (Service Index) :=
  match s.waiting[i]? with
  | some ⟨load, payload⟩ =>
    if load ∈ s.loads.map Load.number then none
    else
      let s := { s with waiting := s.waiting.eraseIdx i }
      if s.persistedSequence.any fun sequence => payload.sequence ≤ sequence then some s
      else
        some { s with
          persistedSequence := some payload.sequence
          writes := s.writes ++ [some payload] }
  | none => none

def land (s : Service Index) : Option (Service Index) :=
  match s.writes with
  | some payload :: rest => some { s with file := some payload, writes := none :: rest }
  | _ => none

/-- The write that runs is over, whether or not it took effect. -/
def settle (s : Service Index) : Option (Service Index) :=
  match s.writes with
  | _ :: rest => some { s with writes := rest }
  | [] => none

/-- Without a repository id it also forgets the blobs of builds that run. -/
def clear (s : Service Index) (all : Bool) : Service Index :=
  { s with
    cache := fun _ => none
    blobsByKey := fun revision =>
      if all ∨ (s.cache revision).isSome then none else s.blobsByKey revision
    loaded := none
    persistedSequence := none }

end Service

inductive Event (Index : Type) where
  | prewarm (version : CanonicalVersion)
  | startBuild (revision : String)
  | listEntries (revision : String)
  | finishBuild (revision : String) (index : Index)
  | failBuild (revision : String)
  | evict (revision : String)
  | loadPersisted
  | readLoad (number : Nat) (reads : Bool)
  | finishLoad (number : Nat)
  | persist (version : CanonicalVersion)
  | persistLoaded (i : Nat)
  | land
  | settle
  | clear (all : Bool)
  deriving DecidableEq, Repr

def step (listing : String → Blobs) (s : Service Index) : Event Index → Option (Service Index)
  | .prewarm version => s.prewarm version
  | .startBuild revision => s.startBuild revision
  | .listEntries revision => s.listEntries listing revision
  | .finishBuild revision index => s.finishBuild listing revision index
  | .failBuild revision => some (s.failBuild revision)
  | .evict revision => some (s.evict revision)
  | .loadPersisted => some s.loadPersisted.2
  | .readLoad number reads => some (s.readLoad number reads)
  | .finishLoad number => s.finishLoad number
  | .persist version => s.persist version
  | .persistLoaded i => s.persistLoaded i
  | .land => s.land
  | .settle => s.settle
  | .clear all => some (s.clear all)

/-! ## What is claimed of a step -/

def Complete (s : Service Index) : Prop := ∀ file ∈ s.file, file.build ∈ s.built

/-- The file of `t` is not older than that of `s`. -/
def Forward (s t : Service Index) : Prop :=
  ∀ file ∈ s.file, ∃ file' ∈ t.file, file.sequence ≤ file'.sequence

def Keeps (listing : String → Blobs) (s : Service Index) (e : Event Index) : Prop :=
  Complete s ∧ ∀ t, step listing s e = some t → Forward s t ∧ Complete t

/-- A promotion not persisted yet has a sequence above this one. -/
def Newer (s : Service Index) (sequence : Nat) : Prop :=
  (∀ version ∈ s.prewarming, sequence < version.sequence) ∧
    ∀ persist ∈ s.waiting, sequence < persist.payload.sequence

/-- A clear finds nothing of the index file under way, and a read that fails no
promotion that is older than the file. -/
def ClearsIdle (s : Service Index) : Event Index → Prop
  | .clear _ => s.loads = [] ∧ s.waiting = [] ∧ s.writes = []
  | .readLoad _ false => ∀ file ∈ s.file, Newer s file.sequence
  | _ => True

instance (s : Service Index) (sequence : Nat) : Decidable (Newer s sequence) :=
  inferInstanceAs (Decidable ((∀ version ∈ s.prewarming, sequence < version.sequence) ∧
    ∀ persist ∈ s.waiting, sequence < persist.payload.sequence))

instance (s : Service Index) : DecidablePred (ClearsIdle s) := fun event =>
  match event with
  | .clear _ => inferInstanceAs (Decidable (s.loads = [] ∧ s.waiting = [] ∧ s.writes = []))
  | .readLoad _ false => inferInstanceAs (Decidable (∀ file ∈ s.file, Newer s file.sequence))
  | .readLoad _ true | .prewarm _ | .startBuild _ | .listEntries _ | .finishBuild _ _
  | .failBuild _ | .evict _ | .loadPersisted | .finishLoad _ | .persist _ | .persistLoaded _
  | .land | .settle => .isTrue trivial

/-! ## The file is one build's -/

section
variable {listing : String → Blobs} {s t : Service Index}

def Sourced (listing : String → Blobs) (s : Service Index) (file : PersistedIndexFile Index) :
    Prop :=
  file.blobs = listing file.revision ∧ file.build ∈ s.built

/-- Everything the service holds is of a build that finished. -/
structure Provenance (listing : String → Blobs) (s : Service Index) : Prop where
  cache : ∀ revision index, s.cache revision = some index →
    ⟨revision, listing revision, index⟩ ∈ s.built
  blobs : ∀ revision blobs, s.blobsByKey revision = some blobs → blobs = listing revision
  file : ∀ file ∈ s.file, Sourced listing s file
  loads : ∀ load ∈ s.loads, ∀ file, load.read = some (some file) → Sourced listing s file
  waiting : ∀ persist ∈ s.waiting, Sourced listing s persist.payload
  writes : ∀ file, some file ∈ s.writes → Sourced listing s file

theorem provenance_loadPersisted (h : Provenance listing s) :
    Provenance listing s.loadPersisted.2 := by
  unfold Service.loadPersisted
  split
  · exact h
  · refine { h with loads := ?_ }
    intro load hload file hread
    rcases List.mem_append.mp hload with hload | hload
    · exact h.loads load hload file hread
    · obtain rfl := List.mem_singleton.mp hload
      cases hread

theorem provenance_finishBuild (h : Provenance listing s) {revision : String} {index : Index}
    (ht : s.finishBuild listing revision index = some t) : Provenance listing t := by
  obtain ⟨-, ht⟩ := Option.ite_none_right_eq_some.mp ht
  obtain rfl := Option.some.inj ht
  have hgrows : ∀ {file}, Sourced listing s file → Sourced listing
      { s with
        inFlight := s.inFlight.filter fun build => build.1 ≠ revision
        cache := Function.update s.cache revision (some index)
        built := s.built ++ [⟨revision, listing revision, index⟩] } file :=
    fun hfile => ⟨hfile.1, List.mem_append_left _ hfile.2⟩
  refine ⟨?_, h.blobs, fun file hfile => hgrows (h.file file hfile),
    fun load hload file hread => hgrows (h.loads load hload file hread),
    fun persist hpersist => hgrows (h.waiting persist hpersist),
    fun file hfile => hgrows (h.writes file hfile)⟩
  intro revision' index' hcache
  by_cases hrevision : revision' = revision
  · subst hrevision
    simp only [Function.update_self, Option.some.injEq] at hcache
    rw [hcache]
    exact List.mem_append_right _ (List.mem_singleton.mpr rfl)
  · simp only [Function.update_of_ne hrevision] at hcache
    exact List.mem_append_left _ (h.cache revision' index' hcache)

theorem provenance_listEntries (h : Provenance listing s) {revision : String}
    (ht : s.listEntries listing revision = some t) : Provenance listing t := by
  obtain ⟨-, ht⟩ := Option.ite_none_right_eq_some.mp ht
  obtain rfl := Option.some.inj ht
  refine { h with blobs := ?_ }
  intro revision' blobs hblobs
  by_cases hrevision : revision' = revision
  · subst hrevision
    simp only [Function.update_self, Option.some.injEq] at hblobs
    exact hblobs.symm
  · simp only [Function.update_of_ne hrevision] at hblobs
    exact h.blobs revision' blobs hblobs

theorem provenance_evict (h : Provenance listing s) (revision : String) :
    Provenance listing (s.evict revision) := by
  refine { h with cache := ?_, blobs := ?_ }
  · intro revision' index hcache
    by_cases hrevision : revision' = revision
    · simp [Service.evict, hrevision] at hcache
    · simp only [Service.evict, Function.update_of_ne hrevision] at hcache
      exact h.cache revision' index hcache
  · intro revision' blobs hblobs
    by_cases hrevision : revision' = revision
    · simp [Service.evict, hrevision] at hblobs
    · simp only [Service.evict, Function.update_of_ne hrevision] at hblobs
      exact h.blobs revision' blobs hblobs

theorem provenance_readLoad (h : Provenance listing s) (number : Nat) (reads : Bool) :
    Provenance listing (s.readLoad number reads) := by
  refine { h with loads := ?_ }
  intro load hload file hread
  obtain ⟨before, hbefore, rfl⟩ := List.mem_map.mp hload
  split at hread
  · cases reads
    · cases hread
    · exact h.file file (Option.some.inj hread)
  · exact h.loads before hbefore file hread

theorem provenance_seed (h : Provenance listing s) {payload : PersistedIndexFile Index}
    (hpayload : Sourced listing s payload) : Provenance listing (s.seed payload) := by
  refine { h with cache := ?_, blobs := ?_ }
  · intro revision index hcache
    by_cases hrevision : revision = payload.revision
    · simp only [Service.seed, hrevision, Function.update_self, Option.some.injEq] at hcache
      rw [hrevision, ← hcache, ← hpayload.1]
      exact hpayload.2
    · simp only [Service.seed, Function.update_of_ne hrevision] at hcache
      exact h.cache revision index hcache
  · intro revision blobs hblobs
    by_cases hrevision : revision = payload.revision
    · simp only [Service.seed, hrevision, Function.update_self, Option.some.injEq] at hblobs
      rw [hrevision, ← hblobs, hpayload.1]
    · simp only [Service.seed, Function.update_of_ne hrevision] at hblobs
      exact h.blobs revision blobs hblobs

variable {number : Nat} {i : Nat}

theorem finishLoad_some (ht : s.finishLoad number = some t) :
    ∃ load ∈ s.loads, load.number = number ∧ ∃ read, load.read = some read ∧
      ((∃ payload, read = some payload ∧ payload.header = s.header ∧
          t = Service.seed { s with
            loads := s.loads.filter fun load => load.number ≠ number } payload) ∨
        ((∀ payload, read = some payload → payload.header ≠ s.header) ∧
          t = { s with loads := s.loads.filter fun load => load.number ≠ number })) := by
  unfold Service.finishLoad at ht
  split at ht
  · rename_i number' read hfind
    have hnumber := List.find?_some hfind
    refine ⟨_, List.mem_of_find?_eq_some hfind, of_decide_eq_true hnumber, read, rfl, ?_⟩
    cases read with
    | none => exact .inr ⟨by simp, (Option.some.inj ht).symm⟩
    | some payload =>
      obtain rfl := Option.some.inj ht
      by_cases hheader : payload.header = s.header
      · exact .inl ⟨payload, rfl, hheader, if_pos hheader⟩
      · refine .inr ⟨?_, if_neg hheader⟩
        rintro _ ⟨⟩
        exact hheader
  · cases ht

theorem provenance_finishLoad (h : Provenance listing s) (ht : s.finishLoad number = some t) :
    Provenance listing t := by
  have hsettled : Provenance listing
      { s with loads := s.loads.filter fun load => load.number ≠ number } :=
    { h with loads := fun load hload => h.loads load (List.mem_of_mem_filter hload) }
  obtain ⟨load, hload, -, read, hread, hcase⟩ := finishLoad_some ht
  rcases hcase with ⟨payload, rfl, -, rfl⟩ | ⟨-, rfl⟩
  · exact provenance_seed hsettled (h.loads load hload payload hread)
  · exact hsettled

theorem persist_some {version : CanonicalVersion} (ht : s.persist version = some t) :
    version ∈ s.prewarming ∧
      let taken : Service Index := { s with prewarming := s.prewarming.erase version }
      t = taken ∨
        ∃ index blobs, s.cache version.revision = some index ∧
          s.blobsByKey version.revision = some blobs ∧
          t = { taken.loadPersisted.2 with
            waiting := taken.loadPersisted.2.waiting ++ [⟨taken.loadPersisted.1, taken.loadPersisted.2.header,
              version.sequence, version.revision, blobs, index⟩] } := by
  obtain ⟨hversion, ht⟩ := Option.ite_none_right_eq_some.mp ht
  refine ⟨hversion, ?_⟩
  dsimp only at ht ⊢
  split at ht
  · rename_i index blobs hcache hblobs
    exact .inr ⟨index, blobs, hcache, hblobs, (Option.some.inj ht).symm⟩
  · exact .inl (Option.some.inj ht).symm

theorem provenance_persist (h : Provenance listing s) {version : CanonicalVersion}
    (ht : s.persist version = some t) : Provenance listing t := by
  have htaken : Provenance listing { s with prewarming := s.prewarming.erase version } :=
    { h with }
  obtain ⟨-, rfl | ⟨index, blobs, hcache, hblobs, rfl⟩⟩ := persist_some ht
  · exact htaken
  · have hloaded := provenance_loadPersisted htaken
    refine { hloaded with waiting := ?_ }
    intro persist hpersist
    rcases List.mem_append.mp hpersist with hpersist | hpersist
    · exact hloaded.waiting persist hpersist
    · obtain rfl := List.mem_singleton.mp hpersist
      have hblobs' : blobs = listing version.revision := h.blobs _ _ hblobs
      have hbuilt : ⟨version.revision, blobs, index⟩ ∈ s.built :=
        hblobs' ▸ h.cache _ _ hcache
      refine ⟨hblobs', ?_⟩
      show _ ∈ (Service.loadPersisted _).2.built
      unfold Service.loadPersisted
      split
      · exact hbuilt
      · exact hbuilt

theorem persistLoaded_some (ht : s.persistLoaded i = some t) :
    ∃ persist, s.waiting[i]? = some persist ∧ persist.load ∉ s.loads.map Load.number ∧
      ((t = { s with waiting := s.waiting.eraseIdx i }) ∨
        ((∀ sequence, s.persistedSequence = some sequence → sequence < persist.payload.sequence) ∧
          t = { s with
            waiting := s.waiting.eraseIdx i
            persistedSequence := some persist.payload.sequence
            writes := s.writes ++ [some persist.payload] })) := by
  unfold Service.persistLoaded at ht
  split at ht
  · rename_i load payload hget
    obtain ⟨hload, ht⟩ := Option.ite_none_left_eq_some.mp ht
    refine ⟨_, hget, hload, ?_⟩
    dsimp only at ht
    split at ht
    · exact .inl (Option.some.inj ht).symm
    · rename_i hnewer
      refine .inr ⟨?_, (Option.some.inj ht).symm⟩
      intro sequence hsequence
      rw [hsequence] at hnewer
      simpa using hnewer
  · cases ht

theorem provenance_persistLoaded (h : Provenance listing s) (ht : s.persistLoaded i = some t) :
    Provenance listing t := by
  obtain ⟨persist, hget, -, rfl | ⟨-, rfl⟩⟩ := persistLoaded_some ht
  · exact { h with waiting := fun other hother => h.waiting other (List.mem_of_mem_eraseIdx hother) }
  · refine { h with
      waiting := fun other hother => h.waiting other (List.mem_of_mem_eraseIdx hother)
      writes := ?_ }
    intro file hfile
    rcases List.mem_append.mp hfile with hfile | hfile
    · exact h.writes file hfile
    · obtain rfl := Option.some.inj (List.mem_singleton.mp hfile)
      exact h.waiting persist (List.mem_of_getElem? hget)

theorem land_some (ht : s.land = some t) :
    ∃ payload rest, s.writes = some payload :: rest ∧
      t = { s with file := some payload, writes := none :: rest } := by
  unfold Service.land at ht
  split at ht
  · rename_i payload rest hwrites
    exact ⟨payload, rest, hwrites, (Option.some.inj ht).symm⟩
  · cases ht

theorem settle_some (ht : s.settle = some t) :
    ∃ write rest, s.writes = write :: rest ∧ t = { s with writes := rest } := by
  unfold Service.settle at ht
  split at ht
  · rename_i write rest hwrites
    exact ⟨write, rest, hwrites, (Option.some.inj ht).symm⟩
  · cases ht

theorem provenance_clear (h : Provenance listing s) (all : Bool) :
    Provenance listing (s.clear all) := by
  refine { h with cache := ?_, blobs := ?_ }
  · intro revision index hcache
    cases hcache
  · intro revision blobs hblobs
    simp only [Service.clear] at hblobs
    split at hblobs
    · cases hblobs
    · exact h.blobs revision blobs hblobs

/-- **Every step keeps the provenance of what the service holds.** -/
theorem Provenance.step {e : Event Index} (h : Provenance listing s)
    (ht : step listing s e = some t) : Provenance listing t := by
  cases e with
  | prewarm version =>
    obtain ⟨-, ht⟩ := Option.ite_none_right_eq_some.mp ht
    obtain rfl := Option.some.inj ht
    exact { h with }
  | startBuild revision =>
    obtain ⟨-, ht⟩ := Option.ite_none_right_eq_some.mp ht
    obtain rfl := Option.some.inj ht
    exact { h with }
  | listEntries revision => exact provenance_listEntries h ht
  | finishBuild revision index => exact provenance_finishBuild h ht
  | failBuild revision =>
    obtain rfl := Option.some.inj ht
    exact { h with }
  | evict revision =>
    obtain rfl := Option.some.inj ht
    exact provenance_evict h revision
  | loadPersisted =>
    obtain rfl := Option.some.inj ht
    exact provenance_loadPersisted h
  | readLoad number reads =>
    obtain rfl := Option.some.inj ht
    exact provenance_readLoad h number reads
  | finishLoad number => exact provenance_finishLoad h ht
  | persist version => exact provenance_persist h ht
  | persistLoaded i => exact provenance_persistLoaded h ht
  | land =>
    obtain ⟨payload, rest, hwrites, rfl⟩ := land_some ht
    refine { h with file := ?_, writes := ?_ }
    · rintro file ⟨⟩
      exact h.writes payload (hwrites ▸ List.mem_cons_self)
    · intro file hfile
      rcases List.mem_cons.mp hfile with hnone | hfile
      · cases hnone
      · exact h.writes file (hwrites ▸ List.mem_cons_of_mem _ hfile)
  | settle =>
    obtain ⟨write, rest, hwrites, rfl⟩ := settle_some ht
    refine { h with writes := ?_ }
    intro file hfile
    exact h.writes file (hwrites ▸ List.mem_cons_of_mem _ hfile)
  | clear all =>
    obtain rfl := Option.some.inj ht
    exact provenance_clear h all

/-! ## The sequences -/

/-- The sequences of the file and of the writes to come, in the order they take
effect. -/
def sequences (s : Service Index) : List Nat :=
  (s.file.toList ++ s.writes.reduceOption).map PersistedIndexFile.sequence

/-- A promotion has had this sequence or a later one. -/
def Promoted (s : Service Index) (sequence : Nat) : Prop :=
  ∃ last, s.promoted = some last ∧ sequence ≤ last

/-- `persist` refuses this sequence. -/
def Refused (s : Service Index) (sequence : Nat) : Prop :=
  ∃ last, s.persistedSequence = some last ∧ sequence ≤ last

structure Ordered (s : Service Index) : Prop where
  increasing : (sequences s).Pairwise (· < ·)
  promotedFile : ∀ file ∈ s.file, Promoted s file.sequence
  promotedVersion : ∀ version ∈ s.prewarming, Promoted s version.sequence
  promotedPersist : ∀ persist ∈ s.waiting, Promoted s persist.payload.sequence
  header : ∀ persist ∈ s.waiting, persist.payload.header = s.header
  /-- A file of another version or other bounds is the one that was left. -/
  foreign : ∀ file ∈ s.file, file.header ≠ s.header → Newer s file.sequence
  unloaded : s.loaded = none →
    s.loads = [] ∧ s.waiting = [] ∧ s.writes = [] ∧ s.persistedSequence = none
  loading : ∀ load ∈ s.loads,
    s.loaded = some load.number ∧ s.writes = [] ∧ s.persistedSequence = none
  read : ∀ load ∈ s.loads, ∀ read, load.read = some read →
    read = s.file ∨ ∀ file ∈ s.file, Newer s file.sequence
  awaited : ∀ persist ∈ s.waiting, s.loaded = some persist.load
  writes : ∀ file, some file ∈ s.writes → Refused s file.sequence ∧ Promoted s file.sequence ∧
    file.header = s.header
  guarded : s.loaded ≠ none → s.loads = [] → ∀ file ∈ s.file,
    Refused s file.sequence ∨ Newer s file.sequence

theorem promoted_prewarm {version : CanonicalVersion} (ht : s.prewarm version = some t)
    {sequence : Nat} (h : Promoted s sequence) :
    sequence < version.sequence ∧ Promoted t sequence := by
  obtain ⟨hlast, ht⟩ := Option.ite_none_right_eq_some.mp ht
  obtain rfl := Option.some.inj ht
  obtain ⟨last, hpromoted, hle⟩ := h
  have hlt : last < version.sequence := by simpa [hpromoted] using hlast
  exact ⟨by omega, version.sequence, rfl, by omega⟩

theorem newer_prewarm {version : CanonicalVersion} (ht : s.prewarm version = some t)
    {sequence : Nat} (hpromoted : Promoted s sequence) (h : Newer s sequence) :
    Newer t sequence := by
  have hlt := (promoted_prewarm ht hpromoted).1
  obtain ⟨-, ht⟩ := Option.ite_none_right_eq_some.mp ht
  obtain rfl := Option.some.inj ht
  refine ⟨?_, h.2⟩
  intro other hother
  rcases List.mem_append.mp hother with hother | hother
  · exact h.1 other hother
  · obtain rfl := List.mem_singleton.mp hother
    exact hlt

theorem ordered_prewarm (h : Ordered s) {version : CanonicalVersion}
    (ht : s.prewarm version = some t) : Ordered t := by
  have hkeep : ∀ {sequence}, Promoted s sequence → Promoted t sequence :=
    fun hpromoted => (promoted_prewarm ht hpromoted).2
  have hnewer : ∀ file ∈ s.file, Newer s file.sequence → Newer t file.sequence :=
    fun file hfile => newer_prewarm ht (h.promotedFile file hfile)
  obtain ⟨-, ht⟩ := Option.ite_none_right_eq_some.mp ht
  obtain rfl := Option.some.inj ht
  refine { h with
    promotedFile := fun file hfile => hkeep (h.promotedFile file hfile)
    promotedVersion := ?_
    promotedPersist := fun persist hpersist => hkeep (h.promotedPersist persist hpersist)
    foreign := fun file hfile hheader => hnewer file hfile (h.foreign file hfile hheader)
    read := fun load hload read hread =>
      (h.read load hload read hread).imp_right fun hall file hfile =>
        hnewer file hfile (hall file hfile)
    writes := fun file hfile => ⟨(h.writes file hfile).1, hkeep (h.writes file hfile).2.1,
      (h.writes file hfile).2.2⟩
    guarded := fun hloaded hloads file hfile =>
      (h.guarded hloaded hloads file hfile).imp_right (hnewer file hfile) }
  intro other hother
  rcases List.mem_append.mp hother with hother | hother
  · exact hkeep (h.promotedVersion other hother)
  · obtain rfl := List.mem_singleton.mp hother
    exact ⟨_, rfl, Nat.le_refl _⟩

theorem loadPersisted_cases (s : Service Index) :
    (s.loaded = some s.loadPersisted.1 ∧ s.loadPersisted.2 = s) ∨
      (s.loaded = none ∧ s.loadPersisted.1 = s.nextLoad ∧ s.loadPersisted.2 = { s with
        loads := s.loads ++ [⟨s.nextLoad, none⟩]
        loaded := some s.nextLoad
        nextLoad := s.nextLoad + 1 }) := by
  cases hloaded : s.loaded with
  | none => exact .inr ⟨rfl, by simp [Service.loadPersisted, hloaded]⟩
  | some number => exact .inl (by simp [Service.loadPersisted, hloaded])

theorem ordered_loadPersisted (h : Ordered s) : Ordered s.loadPersisted.2 := by
  rcases loadPersisted_cases s with ⟨-, heq⟩ | ⟨hloaded, -, heq⟩
  · rw [heq]
    exact h
  · obtain ⟨hloads, hwaiting, hwrites, hpersisted⟩ := h.unloaded hloaded
    rw [heq]
    refine { h with unloaded := ?_, loading := ?_, read := ?_, awaited := ?_, guarded := ?_ }
    · rintro ⟨⟩
    · intro load hload
      rw [hloads, List.nil_append, List.mem_singleton] at hload
      subst hload
      exact ⟨rfl, hwrites, hpersisted⟩
    · intro load hload read hread
      rw [hloads, List.nil_append, List.mem_singleton] at hload
      subst hload
      cases hread
    · intro persist hpersist
      rw [hwaiting] at hpersist
      cases hpersist
    · intro _ hempty
      simp at hempty

theorem ordered_readLoad (h : Ordered s) {reads : Bool}
    (hok : ClearsIdle s (.readLoad number reads)) : Ordered (s.readLoad number reads) := by
  have hback : ∀ load ∈ (s.readLoad number reads).loads, ∃ before ∈ s.loads,
      load.number = before.number ∧ (load.read = before.read ∨
        load.read = some (if reads then s.file else none)) := by
    intro load hload
    obtain ⟨before, hbefore, rfl⟩ := List.mem_map.mp hload
    refine ⟨before, hbefore, ?_⟩
    split
    · exact ⟨rfl, .inr rfl⟩
    · exact ⟨rfl, .inl rfl⟩
  refine { h with unloaded := ?_, loading := ?_, read := ?_, guarded := ?_ }
  · intro hloaded
    obtain ⟨hloads, hrest⟩ := h.unloaded hloaded
    exact ⟨by simp [Service.readLoad, hloads], hrest⟩
  · intro load hload
    obtain ⟨before, hbefore, hnumber, -⟩ := hback load hload
    rw [hnumber]
    exact h.loading before hbefore
  · intro load hload read hread
    obtain ⟨before, hbefore, -, hsame | hnow⟩ := hback load hload
    · exact h.read before hbefore read (hsame ▸ hread)
    · rw [hnow] at hread
      obtain rfl := Option.some.inj hread
      cases reads
      · exact .inr hok
      · exact .inl rfl
  · intro hloaded hloads
    exact h.guarded hloaded (List.map_eq_nil_iff.mp hloads)

theorem ordered_finishLoad (h : Ordered s) (ht : s.finishLoad number = some t) : Ordered t := by
  obtain ⟨load, hload, hnumber, read, hread, hcase⟩ := finishLoad_some ht
  obtain ⟨hloaded, hwrites, hpersisted⟩ := h.loading load hload
  have hnone : s.loads.filter (fun load => load.number ≠ number) = [] := by
    refine List.filter_eq_nil_iff.mpr fun other hother => ?_
    obtain ⟨hother, -⟩ := h.loading other hother
    rw [hloaded, Option.some.injEq] at hother
    simp [← hother, hnumber]
  have hgone : ∀ load, load ∉ s.loads.filter (fun load => load.number ≠ number) := by
    rw [hnone]
    simp
  rcases hcase with ⟨payload, rfl, hheader, rfl⟩ | ⟨hforeign, rfl⟩
  · refine { h with
      unloaded := ?_, loading := fun load hload => absurd hload (hgone load)
      read := fun load hload => absurd hload (hgone load)
      writes := ?_, guarded := ?_ }
    · intro hnot
      rw [show s.loaded = none from hnot] at hloaded
      cases hloaded
    · intro file hfile
      have hwrite : some file ∈ s.writes := hfile
      rw [hwrites] at hwrite
      cases hwrite
    · intro _ _ file hfile
      rcases h.read load hload _ hread with hsame | hnewer
      · rw [show s.file = some file from hfile, Option.some.injEq] at hsame
        exact .inl ⟨payload.sequence, rfl, hsame ▸ Nat.le_refl _⟩
      · exact .inr (hnewer file hfile)
  · refine { h with
      unloaded := ?_, loading := fun load hload => absurd hload (hgone load)
      read := fun load hload => absurd hload (hgone load)
      guarded := ?_ }
    · intro hnot
      rw [show s.loaded = none from hnot] at hloaded
      cases hloaded
    · intro _ _ file hfile
      rcases h.read load hload _ hread with hsame | hnewer
      · exact .inr (h.foreign file hfile (hforeign file (hsame.trans hfile)))
      · exact .inr (hnewer file hfile)

theorem ordered_taken (h : Ordered s) (version : CanonicalVersion) :
    Ordered { s with prewarming := s.prewarming.erase version } := by
  have hnewer : ∀ {sequence}, Newer s sequence →
      Newer { s with prewarming := s.prewarming.erase version } sequence :=
    fun hall => ⟨fun other hother => hall.1 other (List.mem_of_mem_erase hother), hall.2⟩
  exact { h with
    promotedVersion := fun other hother => h.promotedVersion other (List.mem_of_mem_erase hother)
    foreign := fun file hfile hheader => hnewer (h.foreign file hfile hheader)
    read := fun load hload read hread =>
      (h.read load hload read hread).imp_right fun hall file hfile => hnewer (hall file hfile)
    guarded := fun hloaded hloads file hfile =>
      (h.guarded hloaded hloads file hfile).imp_right hnewer }

theorem ordered_waits (h : Ordered s) {persist : Persist Index}
    (hpromoted : Promoted s persist.payload.sequence) (hheader : persist.payload.header = s.header)
    (hload : s.loaded = some persist.load)
    (hnewer : ∀ sequence, Newer s sequence → sequence < persist.payload.sequence) :
    Ordered { s with waiting := s.waiting ++ [persist] } := by
  have hmem : ∀ {p : Persist Index → Prop}, (∀ other ∈ s.waiting, p other) → p persist →
      ∀ other ∈ s.waiting ++ [persist], p other := by
    intro p hall hself other hother
    rcases List.mem_append.mp hother with hother | hother
    · exact hall other hother
    · exact List.mem_singleton.mp hother ▸ hself
  have hgrows : ∀ {sequence}, Newer s sequence →
      Newer { s with waiting := s.waiting ++ [persist] } sequence :=
    fun hall => ⟨hall.1, hmem hall.2 (hnewer _ hall)⟩
  exact { h with
    promotedPersist := hmem h.promotedPersist hpromoted
    header := hmem h.header hheader
    foreign := fun file hfile hother => hgrows (h.foreign file hfile hother)
    unloaded := fun hnone => by rw [show s.loaded = none from hnone] at hload; cases hload
    read := fun load hmem read hread =>
      (h.read load hmem read hread).imp_right fun hall file hfile => hgrows (hall file hfile)
    awaited := hmem h.awaited hload
    guarded := fun hloaded hloads file hfile =>
      (h.guarded hloaded hloads file hfile).imp_right hgrows }

theorem ordered_persist (h : Ordered s) {version : CanonicalVersion}
    (ht : s.persist version = some t) : Ordered t := by
  obtain ⟨hversion, rfl | ⟨index, blobs, -, -, rfl⟩⟩ := persist_some ht
  · exact ordered_taken h version
  · have hloaded := ordered_loadPersisted h
    have hload : s.loadPersisted.2.loaded = some s.loadPersisted.1 := by
      rcases loadPersisted_cases s with ⟨hloaded, hsame⟩ | ⟨-, hnumber, hnew⟩
      · rw [hsame, hloaded]
      · rw [hnew, hnumber]
    have hprewarming : version ∈ s.loadPersisted.2.prewarming := by
      rcases loadPersisted_cases s with ⟨-, hsame⟩ | ⟨-, -, hnew⟩
      · rw [hsame]
        exact hversion
      · rw [hnew]
        exact hversion
    have hwaits := @ordered_waits _ s.loadPersisted.2 hloaded ⟨s.loadPersisted.1,
      s.loadPersisted.2.header, version.sequence, version.revision, blobs, index⟩
      (hloaded.promotedVersion version hprewarming) rfl hload
      (fun sequence hall => hall.1 version hprewarming)
    have htaken := ordered_taken hwaits version
    cases hjoins : s.loaded with
    | none => simpa [Service.loadPersisted, hjoins] using htaken
    | some number => simpa [Service.loadPersisted, hjoins] using htaken

theorem ordered_answered (h : Ordered s) (i : Nat) :
    Ordered { s with waiting := s.waiting.eraseIdx i } := by
  have hnewer : ∀ {sequence}, Newer s sequence →
      Newer { s with waiting := s.waiting.eraseIdx i } sequence :=
    fun hall => ⟨hall.1, fun other hother => hall.2 other (List.mem_of_mem_eraseIdx hother)⟩
  exact { h with
    promotedPersist := fun other hother =>
      h.promotedPersist other (List.mem_of_mem_eraseIdx hother)
    header := fun other hother => h.header other (List.mem_of_mem_eraseIdx hother)
    foreign := fun file hfile hother => hnewer (h.foreign file hfile hother)
    unloaded := fun hnone => by
      obtain ⟨hloads, hwaiting, hrest⟩ := h.unloaded hnone
      exact ⟨hloads, by simp [hwaiting], hrest⟩
    read := fun load hload read hread =>
      (h.read load hload read hread).imp_right fun hall file hfile => hnewer (hall file hfile)
    awaited := fun other hother => h.awaited other (List.mem_of_mem_eraseIdx hother)
    guarded := fun hloaded hloads file hfile =>
      (h.guarded hloaded hloads file hfile).imp_right hnewer }

theorem sequences_write (s : Service Index) (payload : PersistedIndexFile Index)
    (persistedSequence : Option Nat) :
    sequences { s with persistedSequence, writes := s.writes ++ [some payload] } =
      sequences s ++ [payload.sequence] := by
  simp [sequences, List.reduceOption]

theorem ordered_write (h : Ordered s) {payload : PersistedIndexFile Index}
    (hpromoted : Promoted s payload.sequence) (hheader : payload.header = s.header)
    (hloaded : s.loaded ≠ none) (hloads : s.loads = [])
    (hfile : ∀ file ∈ s.file, file.sequence < payload.sequence)
    (hwrites : ∀ last, s.persistedSequence = some last → last < payload.sequence) :
    Ordered { s with
      persistedSequence := some payload.sequence
      writes := s.writes ++ [some payload] } := by
  refine { h with
    increasing := ?_
    unloaded := fun hnone => absurd hnone hloaded
    loading := fun load hload => absurd hload (by rw [show _ = ([] : List _) from hloads]; simp)
    writes := ?_
    guarded := fun _ _ file hmem => .inl ⟨_, rfl, Nat.le_of_lt (hfile file hmem)⟩ }
  · rw [sequences_write]
    refine List.pairwise_append.mpr ⟨h.increasing, List.pairwise_singleton _ _, ?_⟩
    intro sequence hmem other hother
    obtain rfl := List.mem_singleton.mp hother
    obtain ⟨file, hin, rfl⟩ := List.mem_map.mp hmem
    rcases List.mem_append.mp hin with hin | hin
    · exact hfile file (Option.mem_toList.mp hin)
    · obtain ⟨last, hlast, hle⟩ := (h.writes file (List.reduceOption_mem_iff.mp hin)).1
      exact Nat.lt_of_le_of_lt hle (hwrites last hlast)
  · intro file hmem
    rcases List.mem_append.mp hmem with hmem | hmem
    · obtain ⟨⟨last, hlast, hle⟩, hrest⟩ := h.writes file hmem
      exact ⟨⟨_, rfl, Nat.le_of_lt (Nat.lt_of_le_of_lt hle (hwrites last hlast))⟩, hrest⟩
    · obtain rfl := Option.some.inj (List.mem_singleton.mp hmem)
      exact ⟨⟨_, rfl, Nat.le_refl _⟩, hpromoted, hheader⟩

theorem ordered_persistLoaded (h : Ordered s) (ht : s.persistLoaded i = some t) : Ordered t := by
  obtain ⟨persist, hget, hload, rfl | ⟨hnewer, rfl⟩⟩ := persistLoaded_some ht
  · exact ordered_answered h i
  · have hmem : persist ∈ s.waiting := List.mem_of_getElem? hget
    have hloaded : s.loaded = some persist.load := h.awaited persist hmem
    have hloads : s.loads = [] := by
      refine List.eq_nil_iff_forall_not_mem.mpr fun load hin => hload ?_
      have hsame := (h.loading load hin).1
      rw [hloaded, Option.some.injEq] at hsame
      exact List.mem_map.mpr ⟨load, hin, hsame.symm⟩
    have hwrite := @ordered_write _ _ (ordered_answered h i) persist.payload
      (h.promotedPersist persist hmem) (h.header persist hmem) (by simp [hloaded]) hloads
    refine hwrite ?_ hnewer
    intro file hfile
    rcases h.guarded (by simp [hloaded]) hloads file hfile with ⟨last, hlast, hle⟩ | hall
    · exact Nat.lt_of_le_of_lt hle (hnewer last hlast)
    · exact hall.2 persist hmem

theorem ordered_land (h : Ordered s) (ht : s.land = some t) : Ordered t ∧ Forward s t := by
  obtain ⟨payload, rest, hwrites, rfl⟩ := land_some ht
  obtain ⟨hrefused, hpromoted, hheader⟩ := h.writes payload (hwrites ▸ List.mem_cons_self)
  have hloads : s.loads = [] := by
    refine List.eq_nil_iff_forall_not_mem.mpr fun load hin => ?_
    simpa [hwrites] using (h.loading load hin).2.1
  have hsequences : sequences s =
      (s.file.toList.map PersistedIndexFile.sequence) ++
        sequences { s with file := some payload, writes := none :: rest } := by
    simp [sequences, hwrites, List.reduceOption]
  have hincreasing := h.increasing
  rw [hsequences] at hincreasing
  obtain ⟨-, hincreasing, hlt⟩ := List.pairwise_append.mp hincreasing
  constructor
  · refine { h with
      increasing := hincreasing
      promotedFile := ?_, foreign := ?_, unloaded := ?_, loading := ?_, read := ?_
      writes := ?_, guarded := ?_ }
    · rintro file ⟨⟩
      exact hpromoted
    · rintro file ⟨⟩ hother
      exact absurd hheader hother
    · intro hnone
      obtain ⟨-, -, hempty, -⟩ := h.unloaded hnone
      simp [hwrites] at hempty
    · intro load hload
      rw [show _ = ([] : List _) from hloads] at hload
      cases hload
    · intro load hload
      rw [show _ = ([] : List _) from hloads] at hload
      cases hload
    · intro file hfile
      rcases List.mem_cons.mp hfile with hnone | hfile
      · cases hnone
      · exact h.writes file (hwrites ▸ List.mem_cons_of_mem _ hfile)
    · rintro _ _ file ⟨⟩
      exact .inl hrefused
  · intro file hfile
    refine ⟨payload, rfl, Nat.le_of_lt (hlt _ ?_ _ ?_)⟩
    · exact List.mem_map.mpr ⟨file, Option.mem_toList.mpr hfile, rfl⟩
    · simp [sequences]

theorem ordered_settle (h : Ordered s) (ht : s.settle = some t) : Ordered t := by
  obtain ⟨write, rest, hwrites, rfl⟩ := settle_some ht
  refine { h with increasing := ?_, unloaded := ?_, loading := ?_, writes := ?_ }
  · refine List.Pairwise.sublist ?_ h.increasing
    refine (List.Sublist.append_left ?_ _).map _
    rw [hwrites]
    exact (List.sublist_cons_self write rest).filterMap id
  · intro hnone
    obtain ⟨-, -, hempty, -⟩ := h.unloaded hnone
    simp [hwrites] at hempty
  · intro load hload
    obtain ⟨-, hempty, -⟩ := h.loading load hload
    simp [hwrites] at hempty
  · intro file hfile
    exact h.writes file (hwrites ▸ List.mem_cons_of_mem _ hfile)

theorem ordered_clear (h : Ordered s) {all : Bool} (hok : ClearsIdle s (.clear all)) :
    Ordered (s.clear all) := by
  obtain ⟨hloads, hwaiting, hwrites⟩ := hok
  refine { h with unloaded := fun _ => ⟨hloads, hwaiting, hwrites, rfl⟩, loading := ?_
                  awaited := ?_, writes := ?_, guarded := fun hloaded => absurd rfl hloaded }
  · intro load hload
    rw [show (s.clear all).loads = [] from hloads] at hload
    cases hload
  · intro persist hpersist
    rw [show (s.clear all).waiting = [] from hwaiting] at hpersist
    cases hpersist
  · intro file hfile
    rw [show (s.clear all).writes = [] from hwrites] at hfile
    cases hfile

theorem forward_of_file (h : t.file = s.file) : Forward s t :=
  fun file hfile => ⟨file, h ▸ hfile, Nat.le_refl _⟩

/-- **A step whose clear is idle keeps the order, and does not take the file back.** -/
theorem Ordered.step {e : Event Index} (h : Ordered s) (hok : ClearsIdle s e)
    (ht : step listing s e = some t) : Ordered t ∧ Forward s t := by
  cases e with
  | prewarm version =>
    refine ⟨ordered_prewarm h ht, forward_of_file ?_⟩
    obtain ⟨-, ht⟩ := Option.ite_none_right_eq_some.mp ht
    obtain rfl := Option.some.inj ht
    rfl
  | startBuild revision =>
    obtain ⟨-, ht⟩ := Option.ite_none_right_eq_some.mp ht
    obtain rfl := Option.some.inj ht
    exact ⟨{ h with }, forward_of_file rfl⟩
  | listEntries revision =>
    obtain ⟨-, ht⟩ := Option.ite_none_right_eq_some.mp ht
    obtain rfl := Option.some.inj ht
    exact ⟨{ h with }, forward_of_file rfl⟩
  | finishBuild revision index =>
    obtain ⟨-, ht⟩ := Option.ite_none_right_eq_some.mp ht
    obtain rfl := Option.some.inj ht
    exact ⟨{ h with }, forward_of_file rfl⟩
  | failBuild revision =>
    obtain rfl := Option.some.inj ht
    exact ⟨{ h with }, forward_of_file rfl⟩
  | evict revision =>
    obtain rfl := Option.some.inj ht
    exact ⟨{ h with }, forward_of_file rfl⟩
  | loadPersisted =>
    obtain rfl := Option.some.inj ht
    refine ⟨ordered_loadPersisted h, forward_of_file ?_⟩
    rcases loadPersisted_cases s with ⟨-, hsame⟩ | ⟨-, -, hnew⟩
    · rw [hsame]
    · rw [hnew]
  | readLoad number reads =>
    obtain rfl := Option.some.inj ht
    exact ⟨ordered_readLoad h hok, forward_of_file rfl⟩
  | finishLoad number =>
    refine ⟨ordered_finishLoad h ht, forward_of_file ?_⟩
    obtain ⟨load, -, -, read, -, ⟨payload, -, -, rfl⟩ | ⟨-, rfl⟩⟩ := finishLoad_some ht
    · rfl
    · rfl
  | persist version =>
    refine ⟨ordered_persist h ht, forward_of_file ?_⟩
    obtain ⟨-, rfl | ⟨index, blobs, -, -, rfl⟩⟩ := persist_some ht
    · rfl
    · show (Service.loadPersisted _).2.file = s.file
      unfold Service.loadPersisted
      split
      · rfl
      · rfl
  | persistLoaded i =>
    refine ⟨ordered_persistLoaded h ht, forward_of_file ?_⟩
    obtain ⟨persist, -, -, rfl | ⟨-, rfl⟩⟩ := persistLoaded_some ht
    · rfl
    · rfl
  | land => exact ordered_land h ht
  | settle =>
    refine ⟨ordered_settle h ht, forward_of_file ?_⟩
    obtain ⟨write, rest, -, rfl⟩ := settle_some ht
    rfl
  | clear all =>
    obtain rfl := Option.some.inj ht
    exact ⟨ordered_clear h hok, forward_of_file rfl⟩

theorem provenance_start (listing : String → Blobs) (header : FileHeader)
    (left : Option (FileHeader × Nat × String × Index)) :
    Provenance listing (Service.start listing header left) := by
  refine ⟨?_, ?_, ?_, ?_, ?_, ?_⟩
  · rintro revision index ⟨⟩
  · rintro revision blobs ⟨⟩
  · intro file hfile
    refine ⟨?_, List.mem_map.mpr ⟨file, Option.mem_toList.mpr hfile, rfl⟩⟩
    obtain ⟨_, -, rfl⟩ := Option.map_eq_some_iff.mp hfile
    rfl
  · intro load hload
    cases hload
  · intro persist hpersist
    cases hpersist
  · intro file hfile
    cases hfile

theorem ordered_start (listing : String → Blobs) (header : FileHeader)
    (left : Option (FileHeader × Nat × String × Index)) :
    Ordered (Service.start listing header left) where
  increasing := by cases left <;> simp [sequences, Service.start, List.reduceOption]
  promotedFile := by
    intro file hfile
    refine ⟨file.sequence, ?_, Nat.le_refl _⟩
    show (Service.start listing header left).file.map PersistedIndexFile.sequence = _
    rw [Option.mem_def.mp hfile, Option.map_some]
  promotedVersion := by simp [Service.start]
  promotedPersist := by simp [Service.start]
  header := by simp [Service.start]
  foreign := by simp [Service.start, Newer]
  unloaded := fun _ => ⟨rfl, rfl, rfl, rfl⟩
  loading := by simp [Service.start]
  read := by simp [Service.start]
  awaited := by simp [Service.start]
  writes := by simp [Service.start]
  guarded := fun hloaded => absurd rfl hloaded

/-- **The persisted index never goes backwards, and is always one build's, in every run
whose clears find no load, no waiting `persist` and no write under way.** -/
theorem persisted_forward (listing : String → Blobs) (header : FileHeader)
    (left : Option (FileHeader × Nat × String × Index)) (events : List (Event Index))
    (hidle : Throughout (CodeIntelligence.PersistedIndex.step listing) ClearsIdle
      (Service.start listing header left) events) :
    Throughout (CodeIntelligence.PersistedIndex.step listing) (Keeps listing)
      (Service.start listing header left) events := by
  refine @throughout_of_inv _ _ _ _ (fun s => Provenance listing s ∧ Ordered s) _ ?_ ?_ _ _
    ⟨provenance_start listing header left, ordered_start listing header left⟩ hidle
  · rintro s e t ⟨hprovenance, hordered⟩ hok ht
    exact ⟨hprovenance.step ht, (hordered.step hok ht).1⟩
  · rintro s e ⟨hprovenance, hordered⟩ hok
    refine ⟨fun file hfile => (hprovenance.file file hfile).2, fun t ht => ?_⟩
    exact ⟨(hordered.step hok ht).2, fun file hfile => ((hprovenance.step ht).file file hfile).2⟩

end

/-! ## A clear beside a write -/

/-- A tree of one file, which is the revision's own. -/
def oneFile (revision : String) : Blobs := [("a.ts", revision)]

def defaultHeader : FileHeader := ⟨1, "r", 5000, 2 * 1024 * 1024, 50 * 1024 * 1024⟩

def fresh : Service Nat := .start oneFile defaultHeader none

/-- Promotions 5 and 7, of which the later one's build finishes first; its write is
queued. -/
def promotedTwice : List (Event Nat) :=
  [.prewarm ⟨5, "five"⟩, .loadPersisted, .readLoad 0 true, .finishLoad 0,
    .startBuild "five", .listEntries "five",
    .prewarm ⟨7, "seven"⟩, .startBuild "seven", .listEntries "seven", .finishBuild "seven" 7,
    .persist ⟨7, "seven"⟩, .persistLoaded 0]

/-- The older promotion once its build finishes, after a `clear(repositoryId)` or not. -/
def lateOlder (load : Nat) : List (Event Nat) :=
  [.finishBuild "five" 5, .persist ⟨5, "five"⟩, .readLoad load true, .finishLoad load,
    .persistLoaded 0]

/-- The clear comes while the newer promotion's write is queued. -/
def overtaken : List (Event Nat) :=
  promotedTwice ++ [.clear false] ++ lateOlder 1 ++ [.land, .settle]

def clearedAfter : List (Event Nat) :=
  promotedTwice ++ [.land, .settle, .clear false] ++ lateOlder 1

/-- The rule is kept where the clear waits for the write. -/
theorem persisted_forward_clearedAfter :
    (run (step oneFile) fresh clearedAfter).isSome = true ∧
      Throughout (step oneFile) (Keeps oneFile) fresh clearedAfter :=
  ⟨by decide, persisted_forward oneFile defaultHeader none clearedAfter (by decide)⟩

/-- **With a clear while a write is queued, an older build replaces a newer one.** -/
theorem persisted_backward :
    ¬ Throughout (step oneFile) (Keeps oneFile) fresh (overtaken ++ [.land]) := by
  have hrun : (run (step oneFile) fresh overtaken).isSome = true := by decide
  obtain ⟨s, hs⟩ := Option.isSome_iff_exists.mp hrun
  have hbefore : ((run (step oneFile) fresh overtaken).bind Service.file).map
      PersistedIndexFile.sequence = some 7 := by decide
  have hafter : (((run (step oneFile) fresh overtaken).bind Service.land).bind Service.file).map
      PersistedIndexFile.sequence = some 5 := by decide
  rw [hs, Option.bind_some] at hbefore hafter
  obtain ⟨newer, hnewer, hseven⟩ := Option.map_eq_some_iff.mp hbefore
  obtain ⟨older, holder, hfive⟩ := Option.map_eq_some_iff.mp hafter
  obtain ⟨t, ht, holder⟩ := Option.bind_eq_some_iff.mp holder
  intro hkeeps
  obtain ⟨-, ⟨-, hstep⟩, -⟩ := throughout_append hkeeps hs
  obtain ⟨file, hfile, hle⟩ := (hstep t ht).1 newer hnewer
  rw [Option.mem_def, holder, Option.some.injEq] at hfile
  rw [← hfile, hseven, hfive] at hle
  exact absurd hle (by decide)

end AgenticGit.CodeIntelligence.PersistedIndex
