import Mathlib.Data.List.Forall2
import AgenticGit.CodeIntelligence.ReadFiles

/- A warm index against the cold one: what `index` answers from its caches and what a
   service that was just made answers without a file on disk, when every blob is served
   and the Python reader answers.

   What is proved:
     1. `warm_index_cold` — their files and edges are the same, in every run whose builds
        find no placeholder remembered for a file that is one no longer, and find the
        standard library known or a Python file to run the interpreter on.
     2. `python_edge_lost` — after a restart whose build reads no Python file, an edge
        the cold index resolves lands nowhere.

   Correspondence (TypeScript ↔ Lean):
     the index a new service builds ↔ `World.cold` -/
namespace AgenticGit.CodeIntelligence
open AgenticGit.Runtime AgenticGit.Runs

section
variable {Source : Type} [TextRuntime] (world : World Source) (stdlib : List String)

/-! ## What is claimed of an answer -/

def noParses : String → String → Option IndexedFile := fun _ _ => none

def World.cold (revision : String) : RepositoryIndex :=
  world.build (everythingRead stdlib) noParses none revision

def RepositoryIndex.SameAs (index other : RepositoryIndex) : Prop :=
  index.files = other.files ∧ index.edges = other.edges

def AnswersCold (s : IndexService) (e : Event) : Prop :=
  ∀ t, step world s e = some t → ∀ attempt revision, e = .index attempt revision →
    ∃ index, t.cache revision = some index ∧ index.SameAs (world.cold stdlib revision)

/-- Every blob is served, and the Python reader answers with one standard library. -/
def EverythingRead : Event → Prop
  | .index attempt _ => attempt = everythingRead stdlib
  | _ => True

/-! ## When a build is warm -/

def World.coldScan (revision : String) : ScanState Source :=
  world.scan (everythingRead stdlib) noParses revision

def PythonFresh (slot : Slot Source) : Prop :=
  slot.language = .python ∧ slot.isFresh = true

/-- No file of the revision is remembered as the placeholder of a link, nor as that of a
blob without text which a cold scan would come to with its budget spent. -/
def World.PlaceholdersStand (parsed : String → String → Option IndexedFile) (revision : String) :
    Prop :=
  ∀ entry language, world.Regular revision entry → languageOf entry.path = some language →
    parsed entry.oid entry.path = some (unreadableFile entry.path language 0) →
    (∀ source, world.decode entry.oid = some source →
      world.readers.analyze (everythingRead stdlib) entry.path source language =
        unreadableFile entry.path language 0) ∧
    (world.decode entry.oid = none →
      exhausted world.limits (world.coldScan stdlib revision) = false)

/-- The standard library is known, or the build will ask for it if it is needed. -/
def World.StdlibKnown (s : IndexService) (revision : String) : Prop :=
  s.pythonStdlib = none → stdlib ≠ [] →
    (∃ slot ∈ (world.coldScan stdlib revision).slots, PythonFresh slot) →
    ∃ slot ∈ (world.coldScan stdlib revision).slots, PythonFresh slot ∧
      s.parsed slot.entry.oid slot.entry.path = none

/-- A build finds its caches as a cold one would fill them. -/
def BuildsWarm (s : IndexService) : Event → Prop
  | .index _ revision => s.cache revision = none → s.loadPersisted.cache revision = none →
      world.PlaceholdersStand stdlib s.loadPersisted.parsed revision ∧
        world.StdlibKnown stdlib s.loadPersisted revision
  | .persist _ | .restart | .evict _ | .forget _ _ => True

/-! ## A warm scan beside a cold one -/

variable {world stdlib} {parsed : String → String → Option IndexedFile} {revision : String}

/-- What a remembered parse is: what the blob's readers make of it, or a placeholder. -/
def Remembered (world : World Source) (stdlib : List String)
    (parsed : String → String → Option IndexedFile) : Prop :=
  ∀ oid path file, parsed oid path = some file → ∃ language, languageOf path = some language ∧
    ((∃ source, world.decode oid = some source ∧
        file = world.readers.analyze (everythingRead stdlib) path source language) ∨
      file = unreadableFile path language 0)

/-- A warm slot and the cold one in its place. -/
structure SlotAlike (world : World Source) (stdlib : List String)
    (parsed : String → String → Option IndexedFile) (slot cold : Slot Source) : Prop where
  entry : slot.entry = cold.entry
  language : slot.language = cold.language
  file : fileOf world.readers (everythingRead stdlib) slot =
    fileOf world.readers (everythingRead stdlib) cold
  fresh : slot.isFresh = true ↔
    cold.isFresh = true ∧ parsed cold.entry.oid cold.entry.path = none

structure ScanAlike (world : World Source) (stdlib : List String)
    (parsed : String → String → Option IndexedFile) (st cold : ScanState Source) : Prop where
  slots : List.Forall₂ (SlotAlike world stdlib parsed) st.slots cold.slots
  totalBytes : st.totalBytes = cold.totalBytes

variable {st cold : ScanState Source}

omit [TextRuntime] in
theorem ScanAlike.exhausted (h : ScanAlike world stdlib parsed st cold) (limits : Limits) :
    exhausted limits st = exhausted limits cold := by
  unfold CodeIntelligence.exhausted
  rw [h.slots.length_eq, h.totalBytes]

omit [TextRuntime] in
theorem ScanAlike.skip (h : ScanAlike world stdlib parsed st cold) :
    ScanAlike world stdlib parsed st.skip cold.skip := ⟨h.slots, h.totalBytes⟩

omit [TextRuntime] in
theorem ScanAlike.push (h : ScanAlike world stdlib parsed st cold) {slot slot' : Slot Source}
    (hslot : SlotAlike world stdlib parsed slot slot') (bytes : Nat) :
    ScanAlike world stdlib parsed (st.push slot bytes) (cold.push slot' bytes) where
  slots := List.rel_append h.slots (List.Forall₂.cons hslot .nil)
  totalBytes := congrArg (· + bytes) h.totalBytes

omit [TextRuntime] in
theorem ScanAlike.charge (h : ScanAlike world stdlib parsed st cold) (limits : Limits)
    {slot slot' : Slot Source} (hslot : SlotAlike world stdlib parsed slot slot') (bytes : Nat) :
    ScanAlike world stdlib parsed (st.charge limits slot bytes)
      (cold.charge limits slot' bytes) := by
  unfold ScanState.charge
  rw [h.exhausted limits, h.totalBytes]
  split
  · exact h.skip
  · split
    · exact h.skip
    · exact h.push hslot bytes

omit [TextRuntime] in
theorem charge_nothing {limits : Limits} (h : exhausted limits st = false) (slot : Slot Source) :
    st.charge limits slot 0 = st.push slot 0 := by
  have hbytes : st.totalBytes < limits.maxTotalBytes := by
    simp only [CodeIntelligence.exhausted, Bool.or_eq_false_iff, decide_eq_false_iff_not] at h
    omega
  unfold ScanState.charge
  rw [h, if_neg (by decide), if_neg]
  simp only [Bool.or_eq_true, decide_eq_true_eq]
  omega

theorem scanEntry_alike (h : ScanAlike world stdlib parsed st cold)
    (hparsed : Remembered world stdlib parsed) {entry : RepositoryFileEntry}
    (hcandidate : entry ∈ candidates (world.listing revision))
    (hstand : ∀ language, world.Regular revision entry → languageOf entry.path = some language →
      parsed entry.oid entry.path = some (unreadableFile entry.path language 0) →
      (∀ source, world.decode entry.oid = some source →
        world.readers.analyze (everythingRead stdlib) entry.path source language =
          unreadableFile entry.path language 0) ∧
      (world.decode entry.oid = none → exhausted world.limits cold = false)) :
    ScanAlike world stdlib parsed
      (scanEntry world.readers (everythingRead stdlib) ⟨world.decode, parsed, world.limits⟩
        (world.listing revision) st entry)
      (scanEntry world.readers (everythingRead stdlib) ⟨world.decode, noParses, world.limits⟩
        (world.listing revision) cold entry) := by
  unfold scanEntry
  cases hlanguage : languageOf entry.path with
  | none => exact h
  | some language =>
    dsimp only
    split
    · exact h.skip
    · rename_i hsingle
      split
      · exact h.skip.push ⟨rfl, rfl, rfl, by simp [Slot.isFresh]⟩ 0
      · rename_i hfile
        have hregular : world.Regular revision entry :=
          ⟨hcandidate, by simpa using hsingle, by simpa using hfile⟩
        -- what a slot of this entry is filled from, when its blob has text
        have hread : ∀ {file source}, parsed entry.oid entry.path = some file →
            world.decode entry.oid = some source →
            file = world.readers.analyze (everythingRead stdlib) entry.path source language →
            SlotAlike world stdlib parsed ⟨entry, language, .remembered file⟩
              ⟨entry, language, .fresh source⟩ := by
          rintro file source hmem hdecode rfl
          exact ⟨rfl, rfl, rfl, by simp [Slot.isFresh, hmem]⟩
        cases hmem : parsed entry.oid entry.path with
        | none =>
          cases hsource : world.decode entry.oid with
          | none =>
            simp only [sourceOf, everythingRead, hsource, noParses, if_true]
            exact h.skip.push ⟨rfl, rfl, rfl, by simp [Slot.isFresh]⟩ 0
          | some source =>
            simp only [sourceOf, everythingRead, hsource, noParses, if_true]
            exact h.charge _ ⟨rfl, rfl, rfl, by simp [Slot.isFresh, hmem]⟩ _
        | some file =>
          obtain ⟨language', hlanguage', hmade⟩ := hparsed _ _ _ hmem
          rw [hlanguage, Option.some.injEq] at hlanguage'
          subst hlanguage'
          cases hsource : world.decode entry.oid with
          | none =>
            simp only [sourceOf, everythingRead, hsource, noParses, if_true]
            rcases hmade with ⟨source, hdecode, -⟩ | rfl
            · rw [hsource] at hdecode
              cases hdecode
            · have hbudget := (hstand language hregular hlanguage hmem).2 hsource
              rw [show (unreadableFile entry.path language 0).bytes = 0 from rfl,
                charge_nothing (h.exhausted _ ▸ hbudget)]
              have hslot : SlotAlike world stdlib parsed
                  ⟨entry, language, .remembered (unreadableFile entry.path language 0)⟩
                  ⟨entry, language, .unreadable⟩ := ⟨rfl, rfl, rfl, by simp [Slot.isFresh]⟩
              exact ⟨(h.push hslot 0).slots, h.totalBytes⟩
          | some source =>
            simp only [sourceOf, everythingRead, hsource, noParses, if_true]
            have hfile : file =
                world.readers.analyze (everythingRead stdlib) entry.path source language := by
              rcases hmade with ⟨source', hdecode, hmade⟩ | rfl
              · rw [hsource, Option.some.injEq] at hdecode
                rw [hmade, hdecode]
              · exact ((hstand language hregular hlanguage hmem).1 source hsource).symm
            have hbytes : file.bytes = world.readers.byteLength source :=
              hfile ▸ (analyze_written _ _ _ _ _).bytes
            rw [hbytes]
            exact h.charge _ (hread hmem hsource hfile) _

omit [TextRuntime] in
theorem exhausted_mono {limits : Limits} {later : ScanState Source}
    (hslots : st.slots.length ≤ later.slots.length) (hbytes : st.totalBytes ≤ later.totalBytes)
    (h : exhausted limits st = true) : exhausted limits later = true := by
  simp only [CodeIntelligence.exhausted, Bool.or_eq_true, decide_eq_true_eq] at h ⊢
  omega

theorem scanEntry_grows (readers : Readers Source) (attempt : Attempt) (input : BuildInput Source)
    (entries : List RepositoryFileEntry) (st : ScanState Source) (entry : RepositoryFileEntry) :
    st.slots.length ≤ (scanEntry readers attempt input entries st entry).slots.length ∧
      st.totalBytes ≤ (scanEntry readers attempt input entries st entry).totalBytes := by
  have hcharge : ∀ slot bytes,
      st.slots.length ≤ (st.charge input.limits slot bytes).slots.length ∧
        st.totalBytes ≤ (st.charge input.limits slot bytes).totalBytes := by
    intro slot bytes
    unfold ScanState.charge
    split
    · exact ⟨Nat.le_refl _, Nat.le_refl _⟩
    · split
      · exact ⟨Nat.le_refl _, Nat.le_refl _⟩
      · simp [ScanState.push]
  have hunread : ∀ slot, st.slots.length ≤ (st.skip.push slot 0).slots.length ∧
      st.totalBytes ≤ (st.skip.push slot 0).totalBytes := by
    intro slot
    simp [ScanState.skip, ScanState.push]
  unfold scanEntry
  split
  · exact ⟨Nat.le_refl _, Nat.le_refl _⟩
  · split
    · exact ⟨Nat.le_refl _, Nat.le_refl _⟩
    · split
      · exact hunread _
      · split
        · exact hcharge _ _
        · split
          · exact hunread _
          · exact hcharge _ _

theorem exhausted_scanFrom {readers : Readers Source} {attempt : Attempt}
    (input : BuildInput Source) {entries rest : List RepositoryFileEntry} {left : Nat}
    (h : exhausted input.limits st = true) :
    exhausted input.limits (scanFrom readers attempt input entries left st rest) = true := by
  induction rest generalizing left st with
  | nil => exact h
  | cons entry rest ih =>
    rw [scanFrom_cons]
    split
    · exact h
    · obtain ⟨hslots, hbytes⟩ := scanEntry_grows readers attempt input entries st entry
      exact ih (exhausted_mono hslots hbytes h)

theorem scan_alike (hparsed : Remembered world stdlib parsed)
    (hstand : world.PlaceholdersStand stdlib parsed revision) :
    ScanAlike world stdlib parsed (world.scan (everythingRead stdlib) parsed revision)
      (world.coldScan stdlib revision) := by
  have hfrom : ∀ (rest : List RepositoryFileEntry) (left : Nat) (st cold : ScanState Source),
      (∀ entry ∈ rest, entry ∈ candidates (world.listing revision)) →
      ScanAlike world stdlib parsed st cold →
      scanFrom world.readers (everythingRead stdlib) ⟨world.decode, noParses, world.limits⟩
        (world.listing revision) left cold rest = world.coldScan stdlib revision →
      ScanAlike world stdlib parsed
        (scanFrom world.readers (everythingRead stdlib) ⟨world.decode, parsed, world.limits⟩
          (world.listing revision) left st rest)
        (world.coldScan stdlib revision) := by
    intro rest
    induction rest with
    | nil =>
      rintro left st cold - halike hcold
      rw [← hcold]
      exact halike
    | cons entry rest ih =>
      intro left st cold hrest halike hcold
      rw [scanFrom_cons] at hcold ⊢
      rw [show exhausted _ st = exhausted _ cold from halike.exhausted world.limits]
      split at hcold
      · rename_i hspent
        rw [if_pos hspent, ← hcold]
        exact ⟨halike.slots, halike.totalBytes⟩
      · rename_i hspent
        rw [if_neg hspent]
        refine ih _ _ _ (fun other hother => hrest other (List.mem_cons_of_mem _ hother)) ?_ hcold
        refine scanEntry_alike halike hparsed (hrest entry List.mem_cons_self) ?_
        intro language hregular hlanguage hmem
        obtain ⟨htext, hbudget⟩ := hstand entry language hregular hlanguage hmem
        refine ⟨htext, fun hnone => ?_⟩
        -- the budget a cold scan ends with is not spent on the way there
        by_contra hspent
        rw [Bool.not_eq_false] at hspent
        have hgrows := scanEntry_grows world.readers (everythingRead stdlib)
          ⟨world.decode, noParses, world.limits⟩ (world.listing revision) cold entry
        have hend : exhausted world.limits (world.coldScan stdlib revision) = true := by
          rw [← hcold]
          exact exhausted_scanFrom ⟨world.decode, noParses, world.limits⟩
            (exhausted_mono hgrows.1 hgrows.2 hspent)
        rw [hbudget hnone] at hend
        cases hend
  exact hfrom _ 0 {} {} (fun entry hentry => hentry) ⟨.nil, rfl⟩ rfl

/-! ## Files and edges -/

theorem files_alike (halike : ScanAlike world stdlib parsed
      (world.scan (everythingRead stdlib) parsed revision) (world.coldScan stdlib revision))
    (known : Option (List String)) :
    (world.build (everythingRead stdlib) parsed known revision).files =
      (world.cold stdlib revision).files := by
  have hfiles : ∀ {slots cold : List (Slot Source)},
      List.Forall₂ (SlotAlike world stdlib parsed) slots cold →
      slots.map (fileOf world.readers (everythingRead stdlib)) =
        cold.map (fileOf world.readers (everythingRead stdlib)) := by
    intro slots cold h
    induction h with
    | nil => rfl
    | cons hslot _ ih => rw [List.map_cons, List.map_cons, hslot.file, ih]
  exact hfiles halike.slots

omit [TextRuntime] in
theorem fileEdges_stdlib {file : IndexedFile} (h : file.language = .python → file.imports = [])
    (resolvers : Resolvers Source) (context : ResolutionContext Source)
    (stdlib other : Option (List String)) :
    fileEdges resolvers stdlib context file = fileEdges resolvers other context file := by
  unfold fileEdges
  by_cases hlanguage : file.language = .python
  · simp [h hlanguage]
  · simp [resolveImportedFiles, hlanguage]

theorem coldScan_slot {slot : Slot Source} (h : slot ∈ (world.coldScan stdlib revision).slots) :
    slot.content = .unreadable ∨
      ∃ source, slot.content = .fresh source ∧ world.decode slot.entry.oid = some source := by
  have hfrom := scan_slots h
  cases hcontent : slot.content with
  | unreadable => exact .inl rfl
  | remembered file => cases (hfrom.remembered file hcontent).2
  | fresh source => exact .inr ⟨source, rfl, (hfrom.fresh source hcontent).2.2⟩

omit [TextRuntime] in
theorem stdlibOf_eq (slots : List (Slot Source)) :
    stdlibOf (everythingRead stdlib) slots = [] ↔
      (stdlib = [] ∨ ∀ slot ∈ slots, ¬ PythonFresh slot) := by
  have hany : (slots.any fun slot => slot.language = .python && slot.isFresh) = true ↔
      ∃ slot ∈ slots, PythonFresh slot := by
    simp only [List.any_eq_true, Bool.and_eq_true, decide_eq_true_eq, PythonFresh]
  unfold stdlibOf
  by_cases hfresh : ∃ slot ∈ slots, PythonFresh slot
  · rw [if_pos (hany.mpr hfresh)]
    obtain ⟨slot, hslot, hpython⟩ := hfresh
    constructor
    · exact .inl
    · rintro (hempty | hnone)
      · exact hempty
      · exact absurd hpython (hnone slot hslot)
  · rw [if_neg fun h => hfresh (hany.mp h)]
    exact ⟨fun _ => .inr fun slot hslot hpython => hfresh ⟨slot, hslot, hpython⟩, fun _ => rfl⟩

omit [TextRuntime] in
theorem pythonFresh_alike {slots cold : List (Slot Source)}
    (h : List.Forall₂ (SlotAlike world stdlib parsed) slots cold)
    (hcold : ∃ slot ∈ cold, PythonFresh slot ∧ parsed slot.entry.oid slot.entry.path = none) :
    ∃ slot ∈ slots, PythonFresh slot := by
  induction h with
  | nil =>
    obtain ⟨slot, hslot, -⟩ := hcold
    cases hslot
  | cons hslot _ ih =>
    obtain ⟨slot, hmem, hpython, hnone⟩ := hcold
    rcases List.mem_cons.mp hmem with rfl | hmem
    · refine ⟨_, List.mem_cons_self, hslot.language.trans hpython.1, ?_⟩
      exact hslot.fresh.mpr ⟨hpython.2, hnone⟩
    · obtain ⟨warm, hwarm, hfresh⟩ := ih ⟨slot, hmem, hpython, hnone⟩
      exact ⟨warm, List.mem_cons_of_mem _ hwarm, hfresh⟩

theorem imports_of_no_python
    (hnone : ∀ slot ∈ (world.coldScan stdlib revision).slots, ¬ PythonFresh slot) :
    ∀ file ∈ (world.cold stdlib revision).files, file.language = .python → file.imports = [] := by
  intro file hfile hpython
  obtain ⟨slot, hslot, rfl⟩ := List.mem_map.mp hfile
  have hfresh := hnone slot hslot
  obtain ⟨entry, language, content⟩ := slot
  rcases coldScan_slot hslot with hcontent | ⟨source, hcontent, -⟩
  · obtain rfl : content = .unreadable := hcontent
    rfl
  · obtain rfl : content = .fresh source := hcontent
    have hlanguage : language = .python := by
      rw [← hpython]
      exact (analyze_written world.readers (everythingRead stdlib) entry.path source
        language).language.symm
    exact absurd ⟨hlanguage, rfl⟩ hfresh

omit [TextRuntime] in
theorem stdlibAfter_fresh {slots : List (Slot Source)} (h : ∃ slot ∈ slots, PythonFresh slot)
    (hstdlib : stdlib ≠ []) (known : Option (List String)) :
    stdlibAfter (everythingRead stdlib) known slots = some stdlib := by
  have hasked : stdlibOf (everythingRead stdlib) slots ≠ [] := by
    intro hempty
    obtain ⟨slot, hslot, hfresh⟩ := h
    rcases (stdlibOf_eq slots).mp hempty with hnil | hnone
    · exact hstdlib hnil
    · exact hnone slot hslot hfresh
  rw [stdlibAfter, if_neg hasked]
  unfold stdlibOf at hasked ⊢
  split
  · rfl
  · rename_i hno
    rw [if_neg hno] at hasked
    exact absurd rfl hasked

/-- What is known of the standard library, once a fresh Python file of the cold scan is in
the listing. -/
theorem stdlibAfter_alike {s : IndexService}
    (halike : ScanAlike world stdlib s.parsed
      (world.scan (everythingRead stdlib) s.parsed revision) (world.coldScan stdlib revision))
    (hknown : ∀ names, s.pythonStdlib = some names → names = stdlib ∧ stdlib ≠ [])
    (hstdlib : world.StdlibKnown stdlib s revision)
    (hpython : ∃ slot ∈ (world.coldScan stdlib revision).slots, PythonFresh slot) :
    stdlibAfter (everythingRead stdlib) s.pythonStdlib
        (world.scan (everythingRead stdlib) s.parsed revision).slots =
      stdlibAfter (everythingRead stdlib) none (world.coldScan stdlib revision).slots := by
  by_cases hempty : stdlib = []
  · have hunasked : ∀ slots : List (Slot Source), stdlibOf (everythingRead stdlib) slots = [] :=
      fun slots => (stdlibOf_eq slots).mpr (.inl hempty)
    rw [stdlibAfter, stdlibAfter, if_pos (hunasked _), if_pos (hunasked _)]
    cases hnames : s.pythonStdlib with
    | none => rfl
    | some names => exact absurd hempty (hknown names hnames).2
  · rw [stdlibAfter_fresh hpython hempty none]
    cases hnames : s.pythonStdlib with
    | none =>
      exact stdlibAfter_fresh (pythonFresh_alike halike.slots (hstdlib hnames hempty hpython))
        hempty none
    | some names =>
      obtain ⟨rfl, -⟩ := hknown names hnames
      by_cases hwarm : ∃ slot ∈ (world.scan (everythingRead names) s.parsed revision).slots,
          PythonFresh slot
      · exact stdlibAfter_fresh hwarm hempty _
      · rw [stdlibAfter, if_pos]
        refine (stdlibOf_eq _).mpr (.inr fun slot hslot hfresh => hwarm ⟨slot, hslot, hfresh⟩)

/-- **A warm build is the cold one.** -/
theorem build_sameAs {s : IndexService} (hparsed : Remembered world stdlib s.parsed)
    (hknown : ∀ names, s.pythonStdlib = some names → names = stdlib ∧ stdlib ≠ [])
    (hstand : world.PlaceholdersStand stdlib s.parsed revision)
    (hstdlib : world.StdlibKnown stdlib s revision) :
    (world.build (everythingRead stdlib) s.parsed s.pythonStdlib revision).SameAs
      (world.cold stdlib revision) := by
  have halike := scan_alike hparsed hstand
  have hfiles := files_alike halike s.pythonStdlib
  refine ⟨hfiles, congrArg unique ?_⟩
  show (world.build (everythingRead stdlib) s.parsed s.pythonStdlib revision).files.flatMap
      (fileEdges _ _ (contextOf (everythingRead stdlib) _ _
        (world.build (everythingRead stdlib) s.parsed s.pythonStdlib revision).files)) =
    (world.cold stdlib revision).files.flatMap _
  rw [hfiles]
  refine List.flatMap_congr fun file hfile => ?_
  by_cases hpython : ∃ slot ∈ (world.coldScan stdlib revision).slots, PythonFresh slot
  · have hsame := stdlibAfter_alike halike hknown hstdlib hpython
    exact congrArg (fun known => fileEdges world.resolvers known _ file) hsame
  · refine fileEdges_stdlib (imports_of_no_python ?_ file hfile) world.resolvers _ _ _
    exact fun slot hslot hfresh => hpython ⟨slot, hslot, hfresh⟩

/-! ## Runs -/

/-- What is true of every service of a warm run. -/
structure WarmKept (world : World Source) (stdlib : List String) (s : IndexService) : Prop where
  parsed : Remembered world stdlib s.parsed
  cache : ∀ revision index, s.cache revision = some index →
    index.SameAs (world.cold stdlib revision)
  file : ∀ payload, s.file = some payload →
    payload.index.SameAs (world.cold stdlib payload.revision) ∧
      payload.blobs = world.blobsOf payload.revision
  known : ∀ names, s.pythonStdlib = some names → names = stdlib ∧ stdlib ≠ []

variable {s t : IndexService}

theorem remembered_cold {oid : String} {file : IndexedFile}
    (hfile : file ∈ (world.cold stdlib revision).files)
    (hoid : world.blobsOf revision file.path = some oid) :
    ∃ language, languageOf file.path = some language ∧
      ((∃ source, world.decode oid = some source ∧
          file = world.readers.analyze (everythingRead stdlib) file.path source language) ∨
        file = unreadableFile file.path language 0) := by
  obtain ⟨slot, hslot, rfl⟩ := List.mem_map.mp hfile
  have hfrom := scan_slots hslot
  have hblob := blobsOf_single hfrom.candidate hfrom.single
  obtain ⟨entry, language, content⟩ := slot
  rcases coldScan_slot hslot with hcontent | ⟨source, hcontent, hdecode⟩
  · obtain rfl : content = .unreadable := hcontent
    exact ⟨language, hfrom.language, .inr rfl⟩
  · obtain rfl : content = .fresh source := hcontent
    have hpath : (world.readers.analyze (everythingRead stdlib) entry.path source language).path =
        entry.path := (analyze_written _ _ _ _ _).path
    change world.blobsOf revision
      (world.readers.analyze (everythingRead stdlib) entry.path source language).path =
        some oid at hoid
    rw [hpath, hblob, Option.some.injEq] at hoid
    subst hoid
    refine ⟨language, ?_, .inl ⟨source, hdecode, ?_⟩⟩
    · exact (congrArg languageOf hpath).trans hfrom.language
    · show world.readers.analyze (everythingRead stdlib) entry.path source language = _
      rw [show (fileOf world.readers (everythingRead stdlib) ⟨entry, language, .fresh source⟩).path =
        entry.path from hpath]

theorem WarmKept.loadPersisted (h : WarmKept world stdlib s) :
    WarmKept world stdlib s.loadPersisted := by
  unfold IndexService.loadPersisted
  split
  · exact h
  · split
    · exact { h with }
    · rename_i payload hpayload
      obtain ⟨hsame, hblobs⟩ := h.file payload hpayload
      refine { h with parsed := ?_, cache := ?_ }
      · intro oid path file hparsed
        rcases Option.or_eq_some_iff.mp hparsed with hseeded | ⟨-, hbefore⟩
        · have hkey := List.find?_some hseeded
          simp only [Bool.and_eq_true, decide_eq_true_eq] at hkey
          obtain ⟨rfl, hblob⟩ := hkey
          have hfile := List.mem_reverse.mp (List.mem_of_find?_eq_some hseeded)
          exact remembered_cold (hsame.1 ▸ hfile) (hblobs ▸ hblob)
        · exact h.parsed oid path file hbefore
      · intro revision index hindex
        by_cases hrevision : revision = payload.revision
        · simp only [hrevision, Function.update_self, Option.some.injEq] at hindex
          rw [← hindex, hrevision]
          exact hsame
        · simp only [Function.update_of_ne hrevision] at hindex
          exact h.cache revision index hindex

theorem WarmKept.rebuild (h : WarmKept world stdlib s)
    (hstand : world.PlaceholdersStand stdlib s.parsed revision)
    (hstdlib : world.StdlibKnown stdlib s revision) :
    WarmKept world stdlib (s.rebuild world (everythingRead stdlib) revision) := by
  refine ⟨?_, ?_, h.file, ?_⟩
  · intro oid path file hparsed
    simp only [IndexService.rebuild, remember] at hparsed
    split at hparsed
    · rename_i slot hfind
      obtain rfl := Option.some.inj hparsed
      have hkey := List.find?_some hfind
      simp only [Bool.and_eq_true, decide_eq_true_eq] at hkey
      obtain ⟨⟨hremembers, rfl⟩, rfl⟩ := hkey
      have hfrom := scan_slots (List.mem_of_find?_eq_some hfind)
      obtain ⟨entry, language, content⟩ := slot
      cases content with
      | unreadable => cases hremembers
      | remembered file => cases hremembers
      | fresh source =>
        exact ⟨language, hfrom.language, .inl ⟨source, (hfrom.fresh source rfl).2.2, rfl⟩⟩
    · exact h.parsed oid path file hparsed
  · intro other index hindex
    by_cases hrevision : other = revision
    · simp only [IndexService.rebuild, hrevision, Function.update_self, Option.some.injEq] at hindex
      rw [← hindex, hrevision]
      exact build_sameAs h.parsed h.known hstand hstdlib
    · simp only [IndexService.rebuild, Function.update_of_ne hrevision] at hindex
      exact h.cache other index hindex
  · intro names hnames
    simp only [IndexService.rebuild, stdlibAfter] at hnames
    split at hnames
    · exact h.known names hnames
    · rename_i hasked
      obtain rfl := Option.some.inj hnames
      unfold stdlibOf at hasked ⊢
      split at hasked
      · rename_i hfresh
        rw [if_pos hfresh]
        exact ⟨rfl, hasked⟩
      · exact absurd rfl hasked

theorem WarmKept.index (h : WarmKept world stdlib s)
    (hwarm : BuildsWarm world stdlib s (.index (everythingRead stdlib) revision)) :
    WarmKept world stdlib (s.index world (everythingRead stdlib) revision) := by
  unfold IndexService.index
  split
  · exact h
  · rename_i huncached
    split
    · exact h.loadPersisted
    · rename_i hunseeded
      obtain ⟨hstand, hstdlib⟩ := hwarm (Option.not_isSome_iff_eq_none.mp huncached)
        (Option.not_isSome_iff_eq_none.mp hunseeded)
      exact h.loadPersisted.rebuild hstand hstdlib

theorem WarmKept.step {e : Event} (h : WarmKept world stdlib s)
    (hok : EverythingRead stdlib e ∧ BuildsWarm world stdlib s e)
    (ht : step world s e = some t) : WarmKept world stdlib t := by
  obtain ⟨hread, hwarm⟩ := hok
  cases e with
  | index attempt revision =>
    obtain rfl : attempt = everythingRead stdlib := hread
    obtain rfl := Option.some.inj ht
    exact h.index hwarm
  | persist revision =>
    obtain ⟨index, hindex, rfl⟩ := Option.map_eq_some_iff.mp ht
    refine { h.loadPersisted with file := ?_ }
    rintro payload ⟨⟩
    exact ⟨h.cache revision index hindex, rfl⟩
  | restart =>
    obtain rfl := Option.some.inj ht
    refine ⟨?_, ?_, h.file, ?_⟩
    · rintro oid path file ⟨⟩
    · rintro revision index ⟨⟩
    · rintro names ⟨⟩
  | evict revision =>
    obtain rfl := Option.some.inj ht
    refine { h with cache := ?_ }
    intro other index hindex
    by_cases hrevision : other = revision
    · simp [IndexService.evict, hrevision] at hindex
    · simp only [IndexService.evict, Function.update_of_ne hrevision] at hindex
      exact h.cache other index hindex
  | forget oid path =>
    obtain rfl := Option.some.inj ht
    refine { h with parsed := ?_ }
    intro oid' path' file hparsed
    exact h.parsed oid' path' file (Option.ite_none_left_eq_some.mp hparsed).2

theorem cache_index (s : IndexService) (attempt : Attempt) (revision : String) :
    ∃ index, (s.index world attempt revision).cache revision = some index := by
  unfold IndexService.index
  split
  · exact Option.isSome_iff_exists.mp ‹_›
  · split
    · exact Option.isSome_iff_exists.mp ‹_›
    · exact ⟨_, Function.update_self _ _ _⟩

/-- **A warm index is the cold one, in every run whose builds find their caches as a cold
one would fill them.** -/
theorem warm_index_cold (world : World Source) (stdlib : List String) (events : List Event)
    (hread : ∀ e ∈ events, EverythingRead stdlib e)
    (hwarm : Throughout (CodeIntelligence.step world) (BuildsWarm world stdlib) (.fresh none)
      events) :
    Throughout (CodeIntelligence.step world) (AnswersCold world stdlib) (.fresh none) events := by
  refine @throughout_of_inv _ _ _ _ (WarmKept world stdlib) _
    (fun s e t hs hok ht => hs.step hok ht) ?_ _ _ ⟨?_, ?_, ?_, ?_⟩ (throughout_and hread hwarm)
  · rintro s e hs hok t ht attempt revision rfl
    have hkept := hs.step hok ht
    obtain rfl := Option.some.inj ht
    obtain ⟨index, hindex⟩ := cache_index s attempt revision
    exact ⟨index, hindex, hkept.cache revision index hindex⟩
  · rintro oid path file ⟨⟩
  · rintro revision index ⟨⟩
  · rintro payload ⟨⟩
  · rintro names ⟨⟩

end

/-! ## An import that is lost after a restart -/

attribute [local instance] asciiRuntime

/-- A Python file that imports another one, beside a script that changes; without the
standard library no absolute import is resolved. -/
def pythonImport : World String where
  readers := { plainReaders with
    readPython := fun source => some ⟨[], if source = "import util" then ["util"] else [], []⟩ }
  resolvers := { plainResolvers with
    python := fun stdlib context _ specifier =>
      match stdlib with
      | none => []
      | some names =>
        if specifier ∈ names then []
        else context.files.filter fun file => file = specifier ++ ".py" }
  decode := some
  listing revision := [⟨"main.py", "import util", .blob, "100644"⟩,
    ⟨"util.py", "total", .blob, "100644"⟩, ⟨"a.ts", revision, .blob, "100644"⟩]
  limits := {}

/-- A revision is indexed again by a new service, from the file on disk. -/
def indexedAgain : List Event :=
  writtenOut (everythingRead ["os"]) ++ [.index (everythingRead ["os"]) "r1"]

/-- Its index is the cold one. -/
theorem warm_index_cold_again :
    (run (step pythonImport) (.fresh none) indexedAgain).isSome = true ∧
      Throughout (step pythonImport) (AnswersCold pythonImport ["os"]) (.fresh none)
        indexedAgain := by
  refine ⟨by decide, warm_index_cold pythonImport ["os"] indexedAgain ?_ ?_⟩
  · intro e he
    simp only [indexedAgain, writtenOut, List.cons_append, List.nil_append, List.mem_cons,
      List.not_mem_nil, or_false] at he
    rcases he with rfl | rfl | rfl | rfl
    · rfl
    · trivial
    · trivial
    · rfl
  · refine ⟨fun _ _ => ⟨?_, ?_⟩, fun indexed hindexed => ?_⟩
    · rintro entry language - - ⟨⟩
    · rintro - - ⟨slot, hslot, hfresh⟩
      exact ⟨slot, hslot, hfresh, rfl⟩
    obtain rfl := Option.some.inj hindexed
    refine ⟨trivial, fun written hwritten => ?_⟩
    obtain rfl := Option.some.inj hwritten
    refine ⟨trivial, fun restarted hrestarted => ?_⟩
    obtain rfl := Option.some.inj hrestarted
    refine ⟨?_, fun _ _ => trivial⟩
    rintro - ⟨⟩

/-- The edge from `main.py` to the file it imports. -/
def utilEdge : DependencyEdge := ⟨"main.py", some "util.py", "util.py", .imports⟩

/-- **After a restart whose build reads no Python file, an import lands nowhere**: the
interpreter did not run, so nothing is resolved with its standard library. -/
theorem python_edge_lost :
    ¬ Throughout (step pythonImport) (AnswersCold pythonImport ["os"]) (.fresh none)
      (indexedAfter (everythingRead ["os"])) := by
  have hrun : (run (step pythonImport) (.fresh none)
      (writtenOut (everythingRead ["os"]))).isSome = true := by decide
  obtain ⟨s, hs⟩ := Option.isSome_iff_exists.mp hrun
  have hlost : ((((run (step pythonImport) (.fresh none) (writtenOut (everythingRead ["os"]))).bind
      fun s => step pythonImport s (.index (everythingRead ["os"]) "r2")).bind
        fun t => t.cache "r2").map fun index => decide (utilEdge ∈ index.edges)) = some false := by
    decide
  have hcold : utilEdge ∈ (pythonImport.cold ["os"] "r2").edges := by decide
  rw [hs, Option.bind_some] at hlost
  obtain ⟨index, hindex, hlost⟩ := Option.map_eq_some_iff.mp hlost
  obtain ⟨t, ht, hindex⟩ := Option.bind_eq_some_iff.mp hindex
  intro hcolds
  obtain ⟨-, hlast, -⟩ := throughout_append hcolds hs
  obtain ⟨answer, hanswer, -, hedges⟩ := hlast t ht _ "r2" rfl
  rw [hindex, Option.some.injEq] at hanswer
  rw [← hedges, ← hanswer] at hcold
  exact of_decide_eq_false hlost hcold

end AgenticGit.CodeIntelligence
