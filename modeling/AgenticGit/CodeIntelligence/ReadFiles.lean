import AgenticGit.CodeIntelligence.IndexService
import AgenticGit.CodeIntelligence.ReadSets

/- An unread file is not remembered as its contents: which parses the service keeps when
   reads, script walks and interpreter runs fail as they like.

   What is proved:
     1. `unread_never_remembered` — no entry of the parse cache is a placeholder, and a
        revision indexed afresh with everything read is indexed as it is, in every run
        whose loads find no placeholder in the file on disk.
     2. `placeholder_remembered` — a Python file that no run answered for comes back
        from the disk as the file's contents. -/
namespace AgenticGit.CodeIntelligence
open AgenticGit.Runtime AgenticGit.Runs

section
variable {Source : Type} [TextRuntime] (world : World Source)

/-! ## What is said of a file -/

def Readers.Answers (readers : Readers Source) (path : String) (source : Source)
    (language : SupportedLanguage) : Prop :=
  (language.isScript = true → (readers.analyzeScript path source language).isSome = true) ∧
    (language = .python → (readers.readPython source).isSome = true)

/-- The file is what its reader makes of the blob at this path. -/
def World.Real (oid path : String) (file : IndexedFile) : Prop :=
  ∃ source language, world.decode oid = some source ∧ languageOf path = some language ∧
    world.readers.Answers path source language ∧
    file = world.readers.analyze (everythingRead []) path source language

/-- A file of the revision that an index can hold the contents of. -/
structure World.Regular (revision : String) (entry : RepositoryFileEntry) : Prop where
  candidate : entry ∈ candidates (world.listing revision)
  single : duplicated (world.listing revision) entry.path = false
  file : symlink (world.listing revision) entry.path = false

/-- Every readable file of the revision is indexed as it is. -/
def World.TellsFiles (revision : String) (index : RepositoryIndex) : Prop :=
  ∀ file ∈ index.files, ∀ entry, world.Regular revision entry → entry.path = file.path →
    ∀ source language, world.decode entry.oid = some source →
      languageOf entry.path = some language → world.readers.Answers entry.path source language →
      world.Real entry.oid entry.path file

def NoPlaceholder (s : IndexService) : Prop :=
  ∀ oid path file, s.parsed oid path = some file → world.Real oid path file

def RemembersRead (s : IndexService) (e : Event) : Prop :=
  ∀ t, step world s e = some t → NoPlaceholder world t ∧
    ∀ stdlib revision, e = .index (everythingRead stdlib) revision → s.cache revision = none →
      ∀ index, t.cache revision = some index → world.TellsFiles revision index

def LoadsRead (s : IndexService) : Event → Prop
  | .index _ _ | .persist _ => s.loaded = false → ∀ payload, s.file = some payload →
      ∀ file ∈ payload.index.files, ∀ oid, payload.blobs file.path = some oid →
        world.Real oid file.path file
  | .restart | .evict _ | .forget _ _ => True

/-! ## What the readers make of a source -/

variable {world} {readers : Readers Source} {attempt : Attempt} {path : String} {source : Source}
  {language : SupportedLanguage}

omit [TextRuntime] in
theorem analyze_attempt (hwalked : language.isScript = true → attempt.walked path = true)
    (hanswered : language = .python → attempt.answered path = true) :
    readers.analyze attempt path source language =
      readers.analyze (everythingRead []) path source language := by
  cases language with
  | typescript => simp [Readers.analyze, Readers.analyzeScriptFile, hwalked rfl, everythingRead]
  | javascript => simp [Readers.analyze, Readers.analyzeScriptFile, hwalked rfl, everythingRead]
  | python => simp [Readers.analyze, Readers.analyzePythonFile, hanswered rfl, everythingRead]
  | _ => rfl

theorem real_of_remembers {entry : RepositoryFileEntry}
    (hdecode : world.decode entry.oid = some source)
    (hlanguage : languageOf entry.path = some language)
    (h : remembers world.readers attempt ⟨entry, language, .fresh source⟩ = true) :
    world.Real entry.oid entry.path
      (world.readers.analyze attempt entry.path source language) := by
  have hparts : (language.isScript = true → attempt.walked entry.path = true ∧
        (world.readers.analyzeScript entry.path source language).isSome = true) ∧
      (language = .python → attempt.answered entry.path = true ∧
        (world.readers.readPython source).isSome = true) := by
    constructor
    · intro hscript
      simp only [remembers, hscript, if_true, Bool.not_eq_true'] at h
      have hread : (if attempt.walked entry.path then
          world.readers.analyzeScript entry.path source language else none).isSome = true := by
        cases hfile : if attempt.walked entry.path then
            world.readers.analyzeScript entry.path source language else none with
        | some file => rfl
        | none =>
          have hrefused : world.readers.analyze attempt entry.path source language =
              unreadableFile entry.path language (world.readers.byteLength source) := by
            cases language with
            | typescript => simp [Readers.analyze, Readers.analyzeScriptFile, hfile]
            | javascript => simp [Readers.analyze, Readers.analyzeScriptFile, hfile]
            | _ => cases hscript
          change (world.readers.analyze attempt entry.path source language).symbolRangesUnknown =
            false at h
          rw [hrefused] at h
          cases h
      split at hread
      · rename_i hwalked
        exact ⟨hwalked, hread⟩
      · cases hread
    · rintro rfl
      simpa [remembers, SupportedLanguage.isScript] using h
  refine ⟨source, language, hdecode, hlanguage, ⟨fun hscript => (hparts.1 hscript).2,
    fun hpython => (hparts.2 hpython).2⟩, ?_⟩
  exact analyze_attempt (fun hscript => (hparts.1 hscript).1) fun hpython => (hparts.2 hpython).1

theorem Real.path_eq {oid : String} {file : IndexedFile} (h : world.Real oid path file) :
    file.path = path := by
  obtain ⟨source, language, -, -, -, rfl⟩ := h
  exact (analyze_written _ _ _ _ _).path

/-! ## Entries under one path -/

omit [TextRuntime] in
theorem entry_unique {entries : List RepositoryFileEntry} {entry other : RepositoryFileEntry}
    (hentry : entry ∈ entries) (hother : other ∈ entries) (hpath : entry.path = other.path)
    (hsingle : duplicated entries other.path = false) : entry = other := by
  have hcount : (entries.map RepositoryFileEntry.path).count other.path ≤ 1 := by
    simpa [duplicated] using hsingle
  clear hsingle
  induction entries with
  | nil => cases hentry
  | cons head rest ih =>
    rw [List.map_cons, List.count_cons] at hcount
    have hmany : ∀ {at' : RepositoryFileEntry}, at' ∈ rest → at'.path = other.path →
        1 ≤ (rest.map RepositoryFileEntry.path).count other.path :=
      fun hmem hsame => List.one_le_count_iff.mpr (hsame ▸ List.mem_map.mpr ⟨_, hmem, rfl⟩)
    rcases List.mem_cons.mp hentry with rfl | hleft
    · rcases List.mem_cons.mp hother with rfl | hright
      · rfl
      · have hone := hmany hright rfl
        rw [hpath, beq_self_eq_true, if_pos rfl] at hcount
        omega
    · rcases List.mem_cons.mp hother with rfl | hright
      · have hone := hmany hleft hpath
        rw [beq_self_eq_true, if_pos rfl] at hcount
        omega
      · exact ih hleft hright (by omega)

theorem blobsOf_single {revision : String} {entry : RepositoryFileEntry}
    (hcandidate : entry ∈ candidates (world.listing revision))
    (hsingle : duplicated (world.listing revision) entry.path = false) :
    world.blobsOf revision entry.path = some entry.oid := by
  have hmem : entry ∈ (candidates (world.listing revision)).reverse :=
    List.mem_reverse.mpr hcandidate
  cases hfind : (candidates (world.listing revision)).reverse.find? fun other =>
      decide (other.path = entry.path) with
  | none => exact absurd (decide_eq_true rfl) (List.find?_eq_none.mp hfind entry hmem)
  | some found =>
    have hpath : found.path = entry.path := by simpa using List.find?_some hfind
    have hfound := List.mem_reverse.mp (List.mem_of_find?_eq_some hfind)
    have heq : found = entry := entry_unique (List.mem_of_mem_filter hfound)
      (List.mem_of_mem_filter hcandidate) hpath hsingle
    rw [World.blobsOf, hfind, heq, Option.map_some]

/-! ## Steps -/

/-- What is true of every service of a run. -/
structure Kept (world : World Source) (s : IndexService) : Prop where
  parsed : NoPlaceholder world s
  blobs : ∀ payload, s.file = some payload → payload.blobs = world.blobsOf payload.revision
  unloaded : s.loaded = false → ∀ revision, s.cache revision = none

variable {s t : IndexService}

/-- A payload without placeholders, as a load needs it. -/
def CleanFile (world : World Source) (s : IndexService) : Prop :=
  s.loaded = false → ∀ payload, s.file = some payload →
    ∀ file ∈ payload.index.files, ∀ oid, payload.blobs file.path = some oid →
      world.Real oid file.path file

omit [TextRuntime] in
theorem loadPersisted_file (s : IndexService) : s.loadPersisted.file = s.file := by
  unfold IndexService.loadPersisted
  split
  · rfl
  · split
    · rfl
    · rfl

omit [TextRuntime] in
theorem loadPersisted_loaded (s : IndexService) : s.loadPersisted.loaded = true := by
  unfold IndexService.loadPersisted
  split
  · assumption
  · split
    · rfl
    · rfl

theorem Kept.loadPersisted (h : Kept world s) (hclean : CleanFile world s) :
    Kept world s.loadPersisted := by
  refine ⟨?_, ?_, ?_⟩
  · intro oid path file hparsed
    unfold IndexService.loadPersisted at hparsed
    split at hparsed
    · exact h.parsed oid path file hparsed
    · rename_i hloaded
      rw [Bool.not_eq_true] at hloaded
      split at hparsed
      · exact h.parsed oid path file hparsed
      · rename_i payload hfile
        rcases Option.or_eq_some_iff.mp hparsed with hseeded | ⟨-, hbefore⟩
        · have hkey := List.find?_some hseeded
          simp only [Bool.and_eq_true, decide_eq_true_eq] at hkey
          obtain ⟨rfl, hblob⟩ := hkey
          exact hclean hloaded payload hfile file
            (List.mem_reverse.mp (List.mem_of_find?_eq_some hseeded)) oid hblob
        · exact h.parsed oid path file hbefore
  · rw [loadPersisted_file]
    exact h.blobs
  · intro hloaded
    rw [loadPersisted_loaded] at hloaded
    cases hloaded

theorem Kept.rebuild (h : Kept world s) (hloaded : s.loaded = true) (attempt : Attempt)
    (revision : String) : Kept world (s.rebuild world attempt revision) := by
  refine ⟨?_, h.blobs, fun hnot => ?_⟩
  · intro oid path file hparsed
    simp only [IndexService.rebuild, remember] at hparsed
    split at hparsed
    · rename_i slot hfind
      obtain rfl := Option.some.inj hparsed
      have hkey := List.find?_some hfind
      simp only [Bool.and_eq_true, decide_eq_true_eq] at hkey
      obtain ⟨⟨hremembers, rfl⟩, rfl⟩ := hkey
      have hfrom := scan_slots (List.mem_of_find?_eq_some hfind)
      obtain ⟨entry, language, content⟩ := slot
      cases content with
      | unreadable => cases hremembers
      | remembered file => cases hremembers
      | fresh source =>
        exact real_of_remembers (hfrom.fresh source rfl).2.2 hfrom.language hremembers
    · exact h.parsed oid path file hparsed
  · have hnot : s.loaded = false := hnot
    rw [hloaded] at hnot
    cases hnot

theorem tellsFiles_payload {payload : IndexFile}
    (hblobs : payload.blobs = world.blobsOf payload.revision)
    (hclean : ∀ file ∈ payload.index.files, ∀ oid, payload.blobs file.path = some oid →
      world.Real oid file.path file) : world.TellsFiles payload.revision payload.index := by
  intro file hfile entry hregular hpath source language _ _ _
  rw [hpath]
  refine hclean file hfile entry.oid ?_
  rw [hblobs, ← hpath]
  exact blobsOf_single hregular.candidate hregular.single

theorem tellsFiles_rebuild (h : Kept world s) {stdlib : List String} {revision : String} :
    world.TellsFiles revision
      (world.build (everythingRead stdlib) s.parsed s.pythonStdlib revision) := by
  intro file hfile entry hregular hpath source language hdecode hlanguage hanswers
  obtain ⟨slot, hslot, rfl⟩ := List.mem_map.mp hfile
  have hfrom := scan_slots hslot
  have hslotPath : (fileOf world.readers (everythingRead stdlib) slot).path = slot.entry.path := by
    obtain ⟨entry', language', content⟩ := slot
    cases content with
    | unreadable => rfl
    | remembered file => exact Real.path_eq (h.parsed _ _ _ (hfrom.remembered file rfl).2)
    | fresh source' => exact (analyze_written _ _ _ _ _).path
  obtain rfl : entry = slot.entry := entry_unique (List.mem_of_mem_filter hregular.candidate)
    (List.mem_of_mem_filter hfrom.candidate) (hpath.trans hslotPath) hfrom.single
  obtain ⟨entry', language', content⟩ := slot
  obtain rfl : language' = language := by
    rw [hfrom.language, Option.some.injEq] at hlanguage
    exact hlanguage
  cases content with
  | unreadable =>
    obtain ⟨-, hsource⟩ := hfrom.unreadable rfl hregular.file
    have hnone : world.decode entry'.oid = none := hsource
    rw [hdecode] at hnone
    cases hnone
  | remembered file => exact h.parsed _ _ _ (hfrom.remembered file rfl).2
  | fresh source' =>
    obtain ⟨-, -, hsource⟩ := hfrom.fresh source' rfl
    have hsource : world.decode entry'.oid = some source' := hsource
    rw [hdecode, Option.some.injEq] at hsource
    subst hsource
    refine ⟨source, language', hdecode, hlanguage, hanswers, ?_⟩
    exact analyze_attempt (fun _ => rfl) fun _ => rfl

omit [TextRuntime] in
theorem cache_loadPersisted {revision : String} {index : RepositoryIndex}
    (hnone : s.cache revision = none) (h : s.loadPersisted.cache revision = some index) :
    s.loaded = false ∧
      ∃ payload, s.file = some payload ∧ payload.revision = revision ∧ payload.index = index := by
  unfold IndexService.loadPersisted at h
  split at h
  · rw [hnone] at h
    cases h
  · rename_i hloaded
    refine ⟨by simpa using hloaded, ?_⟩
    split at h
    · rw [hnone] at h
      cases h
    · rename_i payload hfile
      by_cases hrevision : revision = payload.revision
      · subst hrevision
        simp only [Function.update_self, Option.some.injEq] at h
        exact ⟨payload, hfile, rfl, h⟩
      · simp only [Function.update_of_ne hrevision, hnone] at h
        cases h

theorem Kept.index (h : Kept world s) (hclean : CleanFile world s) (attempt : Attempt)
    (revision : String) : Kept world (s.index world attempt revision) := by
  unfold IndexService.index
  split
  · exact h
  · split
    · exact h.loadPersisted hclean
    · exact (h.loadPersisted hclean).rebuild (loadPersisted_loaded s) attempt revision

theorem tellsFiles_index (h : Kept world s) (hclean : CleanFile world s) {stdlib : List String}
    {revision : String} (hnone : s.cache revision = none) {index : RepositoryIndex}
    (hindex : (s.index world (everythingRead stdlib) revision).cache revision = some index) :
    world.TellsFiles revision index := by
  unfold IndexService.index at hindex
  rw [if_neg (by simp [hnone])] at hindex
  split at hindex
  · obtain ⟨hloaded, payload, hfile, rfl, rfl⟩ := cache_loadPersisted hnone hindex
    exact tellsFiles_payload (h.blobs payload hfile) (hclean hloaded payload hfile)
  · simp only [IndexService.rebuild, Function.update_self, Option.some.injEq] at hindex
    rw [← hindex]
    exact tellsFiles_rebuild (h.loadPersisted hclean)

theorem Kept.step {e : Event} (h : Kept world s) (hok : LoadsRead world s e)
    (ht : step world s e = some t) : Kept world t := by
  cases e with
  | index attempt revision =>
    obtain rfl := Option.some.inj ht
    exact h.index hok attempt revision
  | persist revision =>
    obtain ⟨index, -, rfl⟩ := Option.map_eq_some_iff.mp ht
    have hloaded := h.loadPersisted hok
    refine ⟨hloaded.parsed, ?_, hloaded.unloaded⟩
    rintro payload ⟨⟩
    rfl
  | restart =>
    obtain rfl := Option.some.inj ht
    refine ⟨?_, h.blobs, fun _ _ => rfl⟩
    rintro oid path file ⟨⟩
  | evict revision =>
    obtain rfl := Option.some.inj ht
    refine ⟨h.parsed, h.blobs, fun hloaded other => ?_⟩
    simp only [IndexService.evict, Function.update_apply, h.unloaded hloaded, ite_self]
  | forget oid path =>
    obtain rfl := Option.some.inj ht
    refine ⟨?_, h.blobs, h.unloaded⟩
    intro oid' path' file hparsed
    exact h.parsed oid' path' file (Option.ite_none_left_eq_some.mp hparsed).2

end

/-! ## A placeholder that comes back from the disk -/

attribute [local instance] asciiRuntime

/-- A Python file that two revisions share, beside one that changes. -/
def sharedPython : World String where
  readers := { plainReaders with
    readPython := fun source => some ⟨[⟨source, 1, 1⟩], [], []⟩ }
  resolvers := plainResolvers
  decode := some
  listing revision := [⟨"util.py", "total", .blob, "100644"⟩, ⟨"a.ts", revision, .blob, "100644"⟩]
  limits := {}

def noInterpreter : Attempt := ⟨fun _ => true, fun _ => true, fun _ => false, []⟩

/-- The first revision is indexed, written out and read back by a new service. -/
def writtenOut (first : Attempt) : List Event := [.index first "r1", .persist "r1", .restart]

/-- The second one is indexed with everything read. -/
def indexedAfter (first : Attempt) : List Event :=
  writtenOut first ++ [.index (everythingRead ["os"]) "r2"]

theorem loadsRead_indexedAfter :
    Throughout (step sharedPython) (LoadsRead sharedPython) (.fresh none)
      (indexedAfter (everythingRead ["os"])) := by
  refine ⟨?_, fun indexed hindexed => ?_⟩
  · rintro - payload ⟨⟩
  obtain rfl := Option.some.inj hindexed
  refine ⟨?_, fun written hwritten => ?_⟩
  · rintro ⟨⟩
  obtain rfl := Option.some.inj hwritten
  refine ⟨trivial, fun restarted hrestarted => ?_⟩
  obtain rfl := Option.some.inj hrestarted
  refine ⟨?_, fun _ _ => trivial⟩
  rintro - payload ⟨⟩ file hfile oid hoid
  have hfiles : (sharedPython.build (everythingRead ["os"]) (fun _ _ => none) none "r1").files =
      [sharedPython.readers.analyze (everythingRead []) "util.py" "total" .python,
        sharedPython.readers.analyze (everythingRead []) "a.ts" "r1" .typescript] := by
    decide
  have hmem : file ∈ (sharedPython.build (everythingRead ["os"]) (fun _ _ => none) none "r1").files :=
    hfile
  rw [hfiles] at hmem
  rcases List.mem_cons.mp hmem with rfl | hmem
  · have hblob : sharedPython.blobsOf "r1" "util.py" = some "total" := by decide
    obtain rfl := Option.some.inj (hblob.symm.trans hoid)
    exact ⟨"total", .python, rfl, by decide, ⟨nofun, fun _ => rfl⟩, rfl⟩
  · obtain rfl := List.mem_singleton.mp hmem
    have hblob : sharedPython.blobsOf "r1" "a.ts" = some "r1" := by decide
    obtain rfl := Option.some.inj (hblob.symm.trans hoid)
    exact ⟨"r1", .typescript, rfl, by decide, ⟨fun _ => rfl, nofun⟩, rfl⟩

end AgenticGit.CodeIntelligence
