import Mathlib.Logic.Function.Basic
import AgenticGit.Lib.Runs
import AgenticGit.CodeIntelligence.Build

/- The service over many builds: revisions kept whole, parses kept by blob and path, and
   both brought back from the file on disk after a restart (`index`, `loadPersisted`,
   `persist`, `remember` of `CodeIntelligenceService`).

   Correspondence (TypeScript ↔ Lean):
     one call after another, each run to its end ↔ one `Event`
     the oldest entry dropped when a cache is full ↔ `evict`, `forget` of any entry
     a promotion whose sequence passes the check of `persist` ↔ `persist`; one that does
       not leaves everything as it is
     a new `CodeIntelligenceService`        ↔ `restart`
   The bounds are the same throughout, so the file on disk is always accepted. -/
namespace AgenticGit.CodeIntelligence
open AgenticGit.Runtime AgenticGit.Runs

/-- A repository, what the readers make of its blobs, and the bounds in force. -/
structure World (Source : Type) where
  readers : Readers Source
  resolvers : Resolvers Source
  decode : String → Option Source
  listing : String → List RepositoryFileEntry
  limits : Limits

/-- Every blob is served, every script walked and every Python run answers. -/
def everythingRead (stdlib : List String) : Attempt :=
  ⟨fun _ => true, fun _ => true, fun _ => true, stdlib⟩

structure IndexFile where
  revision : String
  blobs : String → Option String
  index : RepositoryIndex

structure IndexService where
  cache : String → Option RepositoryIndex
  parsed : String → String → Option IndexedFile
  pythonStdlib : Option (List String)
  loaded : Bool
  file : Option IndexFile

def IndexService.fresh (file : Option IndexFile) : IndexService where
  cache := fun _ => none
  parsed := fun _ _ => none
  pythonStdlib := none
  loaded := false
  file := file

section
variable {Source : Type} [TextRuntime] (world : World Source)

namespace World

def scan (attempt : Attempt) (parsed : String → String → Option IndexedFile) (revision : String) :
    ScanState Source :=
  CodeIntelligence.scan world.readers attempt ⟨world.decode, parsed, world.limits⟩
    (world.listing revision)

def build (attempt : Attempt) (parsed : String → String → Option IndexedFile)
    (known : Option (List String)) (revision : String) : RepositoryIndex :=
  CodeIntelligence.build world.resolvers world.readers attempt
    ⟨world.decode, parsed, world.limits⟩ (world.listing revision) known

/-- The object ids of a revision's files by path; of two entries under one path, the last. -/
def blobsOf (revision : String) (path : String) : Option String :=
  ((candidates (world.listing revision)).reverse.find? fun entry => entry.path = path).map
    RepositoryFileEntry.oid

end World

namespace IndexService

/-- The parses of a payload, remembered; of two files under one key, the last. -/
def seedParsed (parsed : String → String → Option IndexedFile) (payload : IndexFile) :
    String → String → Option IndexedFile := fun oid path =>
  (payload.index.files.reverse.find? fun file =>
    file.path = path && payload.blobs file.path = some oid).or (parsed oid path)

def loadPersisted (s : IndexService) : IndexService :=
  if s.loaded then s
  else
    match s.file with
    | none => { s with loaded := true }
    | some payload =>
      { s with
        loaded := true
        parsed := seedParsed s.parsed payload
        cache := Function.update s.cache payload.revision (some payload.index) }

def rebuild (s : IndexService) (attempt : Attempt) (revision : String) : IndexService :=
  let slots := (world.scan attempt s.parsed revision).slots
  { s with
    cache := Function.update s.cache revision
      (some (world.build attempt s.parsed s.pythonStdlib revision))
    parsed := remember world.readers attempt s.parsed slots
    pythonStdlib := stdlibAfter attempt s.pythonStdlib slots }

/-- `index`; the answer is what the cache then holds. -/
def index (s : IndexService) (attempt : Attempt) (revision : String) : IndexService :=
  if (s.cache revision).isSome then s
  else if (s.loadPersisted.cache revision).isSome then s.loadPersisted
  else s.loadPersisted.rebuild world attempt revision

/-- `persist`, of a revision that is still cached. -/
def persist (s : IndexService) (revision : String) : Option IndexService :=
  (s.cache revision).map fun index =>
    { s.loadPersisted with file := some ⟨revision, world.blobsOf revision, index⟩ }

def evict (s : IndexService) (revision : String) : IndexService :=
  { s with cache := Function.update s.cache revision none }

def forget (s : IndexService) (oid path : String) : IndexService :=
  { s with parsed := fun oid' path' =>
      if oid' = oid ∧ path' = path then none else s.parsed oid' path' }

end IndexService

inductive Event where
  | index (attempt : Attempt) (revision : String)
  | persist (revision : String)
  | restart
  | evict (revision : String)
  | forget (oid path : String)

def step (s : IndexService) : Event → Option IndexService
  | .index attempt revision => some (s.index world attempt revision)
  | .persist revision => s.persist world revision
  | .restart => some (.fresh s.file)
  | .evict revision => some (s.evict revision)
  | .forget oid path => some (s.forget oid path)

/-! ## What a scan fills -/

variable {world} {readers : Readers Source} {attempt : Attempt} {input : BuildInput Source}
  {entries : List RepositoryFileEntry}

/-- A slot as the scan of a listing makes it. -/
structure Slot.From (attempt : Attempt) (input : BuildInput Source)
    (entries : List RepositoryFileEntry) (slot : Slot Source) : Prop where
  candidate : slot.entry ∈ candidates entries
  language : languageOf slot.entry.path = some slot.language
  single : duplicated entries slot.entry.path = false
  remembered : ∀ file, slot.content = .remembered file →
    symlink entries slot.entry.path = false ∧
      input.parsed slot.entry.oid slot.entry.path = some file
  fresh : ∀ source, slot.content = .fresh source →
    symlink entries slot.entry.path = false ∧
      input.parsed slot.entry.oid slot.entry.path = none ∧
      input.decode slot.entry.oid = some source
  unreadable : slot.content = .unreadable → symlink entries slot.entry.path = false →
    input.parsed slot.entry.oid slot.entry.path = none ∧
      sourceOf attempt input slot.entry = none

omit [TextRuntime] in
theorem charge_cases (limits : Limits) (st : ScanState Source) (slot : Slot Source) (bytes : Nat) :
    (st.charge limits slot bytes).slots = st.slots ∨
      (st.charge limits slot bytes).slots = st.slots ++ [slot] := by
  unfold ScanState.charge
  split
  · exact .inl rfl
  · split
    · exact .inl rfl
    · exact .inr rfl

theorem scanEntry_slots {st : ScanState Source} {entry : RepositoryFileEntry}
    (hentry : entry ∈ candidates entries) :
    (scanEntry readers attempt input entries st entry).slots = st.slots ∨
      ∃ slot, slot.From attempt input entries ∧
        (scanEntry readers attempt input entries st entry).slots = st.slots ++ [slot] := by
  unfold scanEntry
  cases hlanguage : languageOf entry.path with
  | none => exact .inl rfl
  | some language =>
    dsimp only
    split
    · exact .inl rfl
    · rename_i hsingle
      rw [Bool.not_eq_true] at hsingle
      split
      · rename_i hlink
        refine .inr ⟨⟨entry, language, .unreadable⟩, ⟨hentry, hlanguage, hsingle, ?_, ?_, ?_⟩, rfl⟩
        · rintro file ⟨⟩
        · rintro source ⟨⟩
        · intro _ hregular
          rw [hlink] at hregular
          cases hregular
      · rename_i hregular
        rw [Bool.not_eq_true] at hregular
        cases hparsed : input.parsed entry.oid entry.path with
        | some file =>
          rcases charge_cases input.limits st ⟨entry, language, .remembered file⟩ file.bytes with
            hsame | hadded
          · exact .inl hsame
          · refine .inr ⟨⟨entry, language, .remembered file⟩,
              ⟨hentry, hlanguage, hsingle, ?_, ?_, ?_⟩, hadded⟩
            · rintro _ ⟨⟩
              exact ⟨hregular, hparsed⟩
            · rintro source ⟨⟩
            · rintro ⟨⟩
        | none =>
          cases hsource : sourceOf attempt input entry with
          | none =>
            refine .inr ⟨⟨entry, language, .unreadable⟩,
              ⟨hentry, hlanguage, hsingle, ?_, ?_, fun _ _ => ⟨hparsed, hsource⟩⟩, rfl⟩
            · rintro file ⟨⟩
            · rintro source ⟨⟩
          | some source =>
            rcases charge_cases input.limits st ⟨entry, language, .fresh source⟩
              (readers.byteLength source) with hsame | hadded
            · exact .inl hsame
            · refine .inr ⟨⟨entry, language, .fresh source⟩,
                ⟨hentry, hlanguage, hsingle, ?_, ?_, ?_⟩, hadded⟩
              · rintro file ⟨⟩
              · rintro _ ⟨⟩
                exact ⟨hregular, hparsed, (Option.ite_none_right_eq_some.mp hsource).2⟩
              · rintro ⟨⟩

/-- **Every slot of a scan is one of the listing's.** -/
theorem scan_slots {slot : Slot Source}
    (h : slot ∈ (scan readers attempt input entries).slots) : slot.From attempt input entries := by
  have hfrom : ∀ (rest : List RepositoryFileEntry) (left : Nat) (st : ScanState Source),
      (∀ entry ∈ rest, entry ∈ candidates entries) →
      (∀ slot ∈ st.slots, slot.From attempt input entries) →
      ∀ slot ∈ (scanFrom readers attempt input entries left st rest).slots,
        slot.From attempt input entries := by
    intro rest
    induction rest with
    | nil => exact fun left st _ hst => hst
    | cons entry rest ih =>
      intro left st hrest hst
      have hnext : ∀ slot ∈ (scanEntry readers attempt input entries st entry).slots,
          slot.From attempt input entries := by
        rcases scanEntry_slots (hrest entry List.mem_cons_self) with hsame | ⟨new, hnew, hadded⟩
        · rw [hsame]
          exact hst
        · rw [hadded]
          intro slot hslot
          rcases List.mem_append.mp hslot with hslot | hslot
          · exact hst slot hslot
          · exact List.mem_singleton.mp hslot ▸ hnew
      have hrest' := fun entry hentry => hrest entry (List.mem_cons_of_mem _ hentry)
      rw [scanFrom_cons]
      split
      · exact hst
      · exact ih _ _ hrest' hnext
  exact hfrom _ 0 {} (fun entry hentry => hentry) (by simp) slot h

end

end AgenticGit.CodeIntelligence
