import Mathlib.Data.Set.Basic
import AgenticGit.Lib.IgnorePatterns
import AgenticGit.Lib.Listings
import AgenticGit.Shared.Paths

/- What a scrub keeps and what its verification spares: `isEphemeralWorkspacePath`,
   `EPHEMERAL_CLEAN_EXCLUDES` and `parseStatusResidue` of `workspace-manager/src/index.ts`.

   Correspondence (TypeScript ↔ Lean):
     a text                       ↔ the list of its characters
     startsWith / endsWith / includes ↔ `<+:`, `<:+`, `<:+:`
     git clean -e                 ↔ `spares`, of the patterns read
     git status -z                ↔ `statusOutput` of the reports

   What is proved: a name is ephemeral by its segments (`isEphemeralWorkspacePath_iff`),
   and so is a path that the excludes spare (`spared_iff`); the residue is empty
   exactly when the excludes spare all, if and only if spared paths are all shown
   as such and some path that is not spared leaves a name that is not
   (`parseStatusResidue_agrees`). A file named as a tree of Yarn's is
   spared and flagged (`parseStatusResidue_flags_spared`). -/
namespace AgenticGit.Workspace.Scrub
open AgenticGit.Ignore AgenticGit.Listings AgenticGit.Shared

/-! ## The two lists -/

def EPHEMERAL_DIRECTORY_NAMES : List String :=
  [".gradle", ".mypy_cache", ".next", ".nuxt", ".output", ".pnpm-store", ".pytest_cache",
    ".ruff_cache", ".svelte-kit", ".tox", ".turbo", ".venv", ".vite", "__pycache__", "build",
    "coverage", "dist", "node_modules", "out", "target", "venv"]

/-- What `git clean` is told to spare. -/
def EPHEMERAL_CLEAN_EXCLUDES : List String :=
  EPHEMERAL_DIRECTORY_NAMES ++
    ["*.tsbuildinfo", "**/.yarn/cache", "**/.yarn/unplugged", "**/.yarn/install-state.gz",
      ".DS_Store", "Thumbs.db"]

def isEphemeralWorkspacePath (repositoryPath : List Char) (expectedFiles : List (List Char)) :
    Bool :=
  if expectedFiles.any fun expected =>
      repositoryPath = expected || decide (expected ++ ['/'] <+: repositoryPath) then false
  else
    (repositoryPath.splitOn '/').any (fun segment =>
        EPHEMERAL_DIRECTORY_NAMES.contains (String.ofList segment)) ||
      decide (".tsbuildinfo".toList <:+ repositoryPath) ||
      decide (".yarn/cache/".toList <+: repositoryPath) ||
      decide (".yarn/unplugged/".toList <+: repositoryPath) ||
      repositoryPath = ".yarn/install-state.gz".toList ||
      decide ("/.yarn/install-state.gz".toList <:+ repositoryPath) ||
      decide ("/.yarn/cache/".toList <:+: repositoryPath) ||
      decide ("/.yarn/unplugged/".toList <:+: repositoryPath) ||
      repositoryPath = ".DS_Store".toList || decide ("/.DS_Store".toList <:+ repositoryPath) ||
      repositoryPath = "Thumbs.db".toList || decide ("/Thumbs.db".toList <:+ repositoryPath)

/-- `text.replaceAll("\\", "/")` -/
def forward (text : List Char) : List Char := text.map fun c => if c = '\\' then '/' else c

def bareName (raw : List Char) : List Char := if ['/'] <:+ raw then raw.dropLast else raw

/-- An entry of the status that the scrub was to remove. -/
def residueOf (entry : List Char) : Option (List Char) :=
  if entry.length < 4 then none
  else
    let code := entry.take 2
    let raw := forward (entry.drop 3)
    let bare := bareName raw
    if (code = ['?', '?'] ∨ code = ['!', '!']) ∧
        (isEphemeralWorkspacePath bare [] || isEphemeralWorkspacePath raw []) = true then none
    else some bare

def parseStatusResidue (output : List Char) : List (List Char) :=
  (output.splitOn '\x00').filterMap residueOf

/-! ## What the tests say of the segments -/

def yarnTrees : List (List Segment) :=
  [[".yarn".toList, "cache".toList], [".yarn".toList, "unplugged".toList]]

def yarnState : List Segment := [".yarn".toList, "install-state.gz".toList]

def NamesDirectory (path : List Segment) : Prop :=
  ∃ segment ∈ path, String.ofList segment ∈ EPHEMERAL_DIRECTORY_NAMES

def EndsAsFile (path : List Segment) : Prop :=
  (∃ front last, path = front ++ [last] ∧ ".tsbuildinfo".toList <:+ last) ∨
    yarnState <:+ path ∨ [".DS_Store".toList] <:+ path ∨ ["Thumbs.db".toList] <:+ path

/-- The path goes on behind one of the trees of Yarn's. -/
def InYarnTree (path : List Segment) : Prop :=
  ∃ tree ∈ yarnTrees, ∃ front rest, rest ≠ [] ∧ path = front ++ (tree ++ rest)

theorem splitOn_noSlash {text : List Char} : ∀ s ∈ text.splitOn '/', '/' ∉ s :=
  fun _ hs hc => (mem_splitOn_chars hs _ hc).1 rfl

theorem inTree_iff {tree : List Segment} {x text : List Char} (hne : tree ≠ [])
    (hfree : ∀ s ∈ tree, '/' ∉ s) (hx : slashed tree ++ ['/'] = '/' :: x) :
    (x <+: text ∨ '/' :: x <:+: text) ↔
      ∃ front rest, rest ≠ [] ∧ text.splitOn '/' = front ++ (tree ++ rest) := by
  rw [← goesOn_iff hne hfree splitOn_noSlash, slashed_splitOn, hx, List.infix_cons_iff,
    List.cons_prefix_cons]
  simp only [true_and]

theorem endsAs_iff {name : List Segment} {x text : List Char} (hne : name ≠ [])
    (hfree : ∀ s ∈ name, '/' ∉ s) (hx : slashed name = '/' :: x) :
    (text = x ∨ '/' :: x <:+ text) ↔ name <:+ text.splitOn '/' := by
  rw [← ends_iff hne hfree splitOn_noSlash, slashed_splitOn, hx, List.suffix_cons_iff,
    List.cons.injEq, eq_comm]
  simp only [true_and]

theorem endsBuildInfo_iff {text : List Char} :
    ".tsbuildinfo".toList <:+ text ↔
      ∃ front last, text.splitOn '/' = front ++ [last] ∧ ".tsbuildinfo".toList <:+ last := by
  have hfree : '/' ∉ ".tsbuildinfo".toList := by decide
  obtain ⟨front, last, hlast⟩ : ∃ front last, text.splitOn '/' = front ++ [last] :=
    ⟨_, _, (List.dropLast_append_getLast (List.splitOn_ne_nil _ _)).symm⟩
  have hends := @endsWith_iff ".tsbuildinfo".toList front last hfree
  rw [← hlast, slashed_splitOn, List.suffix_cons_iff] at hends
  have hhead : ".tsbuildinfo".toList ≠ '/' :: text := by
    intro h
    exact hfree (h ▸ List.mem_cons_self)
  have hiff : ".tsbuildinfo".toList <:+ text ↔ ".tsbuildinfo".toList <:+ last := by
    rw [← hends]
    exact ⟨.inr, fun h => h.resolve_left hhead⟩
  rw [hiff, hlast]
  refine ⟨fun h => ⟨front, last, rfl, h⟩, fun ⟨front', last', heq, h⟩ => ?_⟩
  rwa [List.singleton_inj.1 (List.append_inj' heq rfl).2]

/-- **A name is ephemeral by its segments.** -/
theorem isEphemeralWorkspacePath_iff (text : List Char) :
    isEphemeralWorkspacePath text [] = true ↔
      NamesDirectory (text.splitOn '/') ∨ EndsAsFile (text.splitOn '/') ∨
        InYarnTree (text.splitOn '/') := by
  have hcache := @inTree_iff [".yarn".toList, "cache".toList] ".yarn/cache/".toList text
    (by decide) (by decide) (by decide)
  have hunplugged := @inTree_iff [".yarn".toList, "unplugged".toList] ".yarn/unplugged/".toList
    text (by decide) (by decide) (by decide)
  have hstate := @endsAs_iff yarnState ".yarn/install-state.gz".toList text (by decide)
    (by decide) (by decide)
  have hstore := @endsAs_iff [".DS_Store".toList] ".DS_Store".toList text (by decide)
    (by decide) (by decide)
  have hthumbs := @endsAs_iff ["Thumbs.db".toList] "Thumbs.db".toList text (by decide)
    (by decide) (by decide)
  rw [EndsAsFile, InYarnTree, ← endsBuildInfo_iff, ← hstate, ← hstore, ← hthumbs]
  simp only [yarnTrees, List.mem_cons, List.not_mem_nil, or_false, exists_eq_or_imp,
    exists_eq_left, ← hcache, ← hunplugged]
  simp only [isEphemeralWorkspacePath, NamesDirectory, List.any_nil, Bool.false_eq_true, if_false,
    Bool.or_eq_true, List.any_eq_true, List.contains_iff_mem, decide_eq_true_eq]
  have behind : ("/.yarn/cache/".toList = '/' :: ".yarn/cache/".toList ∧
      "/.yarn/unplugged/".toList = '/' :: ".yarn/unplugged/".toList) ∧
      "/.yarn/install-state.gz".toList = '/' :: ".yarn/install-state.gz".toList ∧
      "/.DS_Store".toList = '/' :: ".DS_Store".toList ∧
      "/Thumbs.db".toList = '/' :: "Thumbs.db".toList := by decide
  rw [behind.1.1, behind.1.2, behind.2.1, behind.2.2.1, behind.2.2.2]
  clear hcache hunplugged hstate hstore hthumbs behind
  generalize (∃ x ∈ text.splitOn '/', String.ofList x ∈ EPHEMERAL_DIRECTORY_NAMES) = a
  generalize (".tsbuildinfo".toList <:+ text) = b
  generalize (".yarn/cache/".toList <+: text) = c₁
  generalize (".yarn/unplugged/".toList <+: text) = c₂
  generalize (text = ".yarn/install-state.gz".toList) = d₁
  generalize ('/' :: ".yarn/install-state.gz".toList <:+ text) = d₂
  generalize ('/' :: ".yarn/cache/".toList <:+: text) = c₃
  generalize ('/' :: ".yarn/unplugged/".toList <:+: text) = c₄
  generalize (text = ".DS_Store".toList) = e₁
  generalize ('/' :: ".DS_Store".toList <:+ text) = e₂
  generalize (text = "Thumbs.db".toList) = f₁
  generalize ('/' :: "Thumbs.db".toList <:+ text) = f₂
  tauto

/-! ## What the excludes spare -/

def HoldsYarn (path : List Segment) : Prop :=
  (∃ tree ∈ yarnTrees, tree <:+: path) ∨ yarnState <:+: path

def NamesFile (path : List Segment) : Prop :=
  ∃ segment ∈ path, ".tsbuildinfo".toList <:+ segment ∨ segment = ".DS_Store".toList ∨
    segment = "Thumbs.db".toList

def Spared (path : List Segment) : Prop :=
  spares (EPHEMERAL_CLEAN_EXCLUDES.map readPattern) path = true

theorem readPattern_names :
    EPHEMERAL_DIRECTORY_NAMES.map readPattern =
      EPHEMERAL_DIRECTORY_NAMES.map fun name => [name.toList] := by decide

theorem readPattern_files :
    ["*.tsbuildinfo", "**/.yarn/cache", "**/.yarn/unplugged", "**/.yarn/install-state.gz",
        ".DS_Store", "Thumbs.db"].map readPattern =
      [['*' :: ".tsbuildinfo".toList], [".yarn".toList, "cache".toList],
        [".yarn".toList, "unplugged".toList], yarnState, [".DS_Store".toList],
        ["Thumbs.db".toList]] := by decide

theorem names_literal : ∀ name ∈ EPHEMERAL_DIRECTORY_NAMES, '*' ∉ name.toList := by
  decide

/-- **What the excludes spare**: a path with a segment that is one of the
    names or matches one of the files, or that holds one of Yarn's. -/
theorem spared_iff {path : List Segment} :
    Spared path ↔ NamesDirectory path ∨ NamesFile path ∨ HoldsYarn path := by
  rw [Spared, spares_iff, EPHEMERAL_CLEAN_EXCLUDES, List.map_append, readPattern_names,
    readPattern_files]
  simp only [List.mem_append, or_and_right, exists_or, List.mem_cons, List.not_mem_nil, or_false,
    exists_eq_left, List.mem_map, exists_exists_and_eq_and]
  have hnames : (∃ name ∈ EPHEMERAL_DIRECTORY_NAMES, ∃ q, q <:+: path ∧
      List.Forall₂ (fun p s => glob p s = true) [name.toList] q) ↔ NamesDirectory path := by
    constructor
    · rintro ⟨name, hname, hmatch⟩
      obtain ⟨s, hs, hglob⟩ := forall₂_single.1 hmatch
      rw [glob_literal (names_literal name hname)] at hglob
      exact ⟨s, hs, by rwa [hglob, String.ofList_toList]⟩
    · rintro ⟨s, hs, hname⟩
      refine ⟨_, hname, forall₂_single.2 ⟨s, hs, ?_⟩⟩
      rw [glob_literal (names_literal _ hname), String.toList_ofList]
  have hyarn : '*' ∉ ".yarn".toList ∧ '*' ∉ "cache".toList ∧ '*' ∉ "unplugged".toList ∧
      '*' ∉ "install-state.gz".toList := by decide
  have hfiles : '*' ∉ ".tsbuildinfo".toList ∧ '*' ∉ ".DS_Store".toList ∧
      '*' ∉ "Thumbs.db".toList := by decide
  rw [hnames, forall₂_single, forall₂_pair hyarn.1 hyarn.2.1, forall₂_pair hyarn.1 hyarn.2.2.1,
    yarnState, forall₂_pair hyarn.1 hyarn.2.2.2, forall₂_single, forall₂_single]
  simp only [glob_star hfiles.1, glob_literal hfiles.2.1, glob_literal hfiles.2.2, NamesFile,
    HoldsYarn, yarnTrees, yarnState, and_or_left, exists_or, List.mem_cons, List.not_mem_nil,
    or_false, exists_eq_or_imp, exists_eq_left]
  constructor
  · rintro (h | h | h | h | h | h | h)
    · exact .inl h
    · exact .inr (.inl (.inl h))
    · exact .inr (.inr (.inl (.inl h)))
    · exact .inr (.inr (.inl (.inr h)))
    · exact .inr (.inr (.inr h))
    · exact .inr (.inl (.inr (.inl h)))
    · exact .inr (.inl (.inr (.inr h)))
  · rintro (h | (h | h | h) | (h | h) | h)
    · exact .inl h
    · exact .inr (.inl h)
    · exact .inr (.inr (.inr (.inr (.inr (.inl h)))))
    · exact .inr (.inr (.inr (.inr (.inr (.inr h)))))
    · exact .inr (.inr (.inl h))
    · exact .inr (.inr (.inr (.inl h)))
    · exact .inr (.inr (.inr (.inr (.inl h))))

/-! ## The status of what is left -/

def Named (path : List Segment) : Prop :=
  path ≠ [] ∧ ∀ s ∈ path, s ≠ [] ∧ '/' ∉ s ∧ '\x00' ∉ s

/-- An entry of the status: a path by itself or a directory above some. -/
structure Report where
  path : List Segment
  directory : Bool
  ignored : Bool

def Report.text (r : Report) : List Char :=
  ['/'].intercalate r.path ++ if r.directory then ['/'] else []

def Report.line (r : Report) : List Char :=
  (if r.ignored then "!! ".toList else "?? ".toList) ++ r.text

def statusOutput (reports : List Report) : List Char :=
  terminated '\x00' (reports.map Report.line)

def Report.Covers (r : Report) (path : List Segment) : Prop :=
  if r.directory then ∃ rest, rest ≠ [] ∧ path = r.path ++ rest else path = r.path

/-- The status reports each path, and nothing else. -/
structure Reports (paths : Set (List Segment)) (reports : List Report) : Prop where
  named : ∀ path ∈ paths, Named path
  reported : ∀ path ∈ paths, ∃ r ∈ reports, r.Covers path
  covers : ∀ r ∈ reports, r.path ≠ [] ∧ ∃ path ∈ paths, r.Covers path

/-- The name reported, read as `parseStatusResidue` reads it: it is of the
    names of directories, ends as a file, or is in a tree of Yarn's. -/
def Report.Shows (r : Report) : Prop :=
  NamesDirectory ((bareName (forward r.text)).splitOn '/') ∨
    EndsAsFile ((bareName (forward r.text)).splitOn '/') ∨
      InYarnTree ((forward r.text).splitOn '/')

/-! ## The residue -/

theorem not_namesDirectory_blank : ¬ NamesDirectory [[]] := by
  rintro ⟨s, hs, hname⟩
  rw [List.mem_singleton.1 hs] at hname
  exact absurd hname (by decide)

theorem NamesDirectory.append {path rest : List Segment} :
    NamesDirectory (path ++ rest) ↔ NamesDirectory path ∨ NamesDirectory rest := by
  simp only [NamesDirectory, List.mem_append, or_and_right, exists_or]

theorem not_endsAsFile_blank {path : List Segment} : ¬ EndsAsFile (path ++ [[]]) := by
  have hlast : ∀ {name : List Segment} {last : Segment}, last ≠ [] →
      ¬ name ++ [last] <:+ path ++ [[]] := by
    intro name last hne h
    obtain ⟨t, ht⟩ : [last] <:+ path ++ [[]] := (List.suffix_append name [last]).trans h
    exact hne (List.singleton_inj.1 (List.append_inj' ht rfl).2)
  rintro (⟨front, last, heq, h⟩ | h | h | h)
  · have hnil := List.singleton_inj.1 (List.append_inj' heq rfl).2
    rw [← hnil] at h
    exact absurd (List.suffix_nil.1 h) (by decide)
  · exact @hlast [".yarn".toList] "install-state.gz".toList (by decide) h
  · exact @hlast [] ".DS_Store".toList (by decide) h
  · exact @hlast [] "Thumbs.db".toList (by decide) h

theorem InYarnTree.append {path rest : List Segment} (h : InYarnTree path) :
    InYarnTree (path ++ rest) := by
  obtain ⟨tree, htree, front, behind, hne, rfl⟩ := h
  refine ⟨tree, htree, front, behind ++ rest, ?_, by simp only [List.append_assoc]⟩
  exact fun h => hne (List.append_eq_nil_iff.1 h).1

theorem splitOn_bareName (raw : List Char) :
    (¬ ['/'] <:+ raw ∧ raw.splitOn '/' = (bareName raw).splitOn '/') ∨
      raw.splitOn '/' = (bareName raw).splitOn '/' ++ [[]] := by
  by_cases h : ['/'] <:+ raw
  · obtain ⟨front, rfl⟩ := h
    right
    rw [bareName, if_pos (List.suffix_append _ _), List.dropLast_concat,
      List.splitOn_append_cons_self]
    rfl
  · left
    rw [bareName, if_neg h]
    exact ⟨h, rfl⟩

theorem Report.shows_iff (r : Report) :
    r.Shows ↔ isEphemeralWorkspacePath (bareName (forward r.text)) [] = true ∨
      isEphemeralWorkspacePath (forward r.text) [] = true := by
  rw [isEphemeralWorkspacePath_iff, isEphemeralWorkspacePath_iff, Report.Shows]
  rcases splitOn_bareName (forward r.text) with ⟨-, h⟩ | h
  · rw [h, or_self]
  · rw [h, NamesDirectory.append]
    constructor
    · rintro (hd | hf | hy)
      · exact .inl (.inl hd)
      · exact .inl (.inr (.inl hf))
      · exact .inr (.inr (.inr hy))
    · rintro ((hd | hf | hy) | (hd | hd) | hf | hy)
      · exact .inl hd
      · exact .inr (.inl hf)
      · exact .inr (.inr hy.append)
      · exact .inl hd
      · exact absurd hd not_namesDirectory_blank
      · exact absurd hf not_endsAsFile_blank
      · exact .inr (.inr hy)

theorem Report.text_ne_nil {r : Report} (h : Named r.path) : r.text ≠ [] := by
  obtain ⟨s, path, hpath⟩ := List.exists_cons_of_ne_nil h.1
  intro hnil
  have hs := (h.2 s (hpath ▸ List.mem_cons_self)).1
  rw [Report.text, hpath] at hnil
  cases path with
  | nil => exact hs (by simpa [List.intercalate] using (List.append_eq_nil_iff.1 hnil).1)
  | cons t path => exact hs (by simpa [List.intercalate] using (List.append_eq_nil_iff.1 hnil).1)

theorem residueOf_line {r : Report} (h : Named r.path) : residueOf r.line = none ↔ r.Shows := by
  have hcode : r.line.take 2 = ['?', '?'] ∨ r.line.take 2 = ['!', '!'] := by
    rw [Report.line]
    cases r.ignored with
    | true => exact .inr rfl
    | false => exact .inl rfl
  have hdrop : r.line.drop 3 = r.text := by
    rw [Report.line]
    cases r.ignored <;> rfl
  have hlength : ¬ r.line.length < 4 := by
    have hpos := List.length_pos_of_ne_nil (Report.text_ne_nil h)
    have hline : r.line.length = 3 + r.text.length := by
      rw [Report.line, List.length_append]
      cases r.ignored <;> rfl
    omega
  rw [residueOf, if_neg hlength, Report.shows_iff]
  simp only [hdrop, Bool.or_eq_true]
  split
  · rename_i hspared
    exact ⟨fun _ => hspared.2, fun _ => rfl⟩
  · rename_i hspared
    exact ⟨fun h => (Option.some_ne_none _ h).elim, fun hshows => (hspared ⟨hcode, hshows⟩).elim⟩

theorem splitOn_statusOutput {reports : List Report} (h : ∀ r ∈ reports, Named r.path) :
    (statusOutput reports).splitOn '\x00' = reports.map Report.line ++ [[]] := by
  refine splitOn_terminated fun line hline => ?_
  obtain ⟨r, hr, rfl⟩ := List.mem_map.1 hline
  rw [Report.line, Report.text]
  simp only [List.mem_append, not_or]
  refine ⟨by cases r.ignored <;> decide, ?_, by cases r.directory <;> decide⟩
  intro hmem
  rcases mem_intercalate hmem with hslash | ⟨s, hs, hc⟩
  · exact absurd hslash (by decide)
  · exact ((h r hr).2 s hs).2.2 hc

/-- **The residue is empty exactly when every name reported shows what is kept.** -/
theorem parseStatusResidue_nil {reports : List Report} (h : ∀ r ∈ reports, Named r.path) :
    parseStatusResidue (statusOutput reports) = [] ↔ ∀ r ∈ reports, r.Shows := by
  rw [parseStatusResidue, splitOn_statusOutput h, List.filterMap_eq_nil_iff]
  constructor
  · intro hnone r hr
    exact (residueOf_line (h r hr)).1
      (hnone _ (List.mem_append_left _ (List.mem_map_of_mem hr)))
  · intro hshows line hline
    rcases List.mem_append.1 hline with hline | hline
    · obtain ⟨r, hr, rfl⟩ := List.mem_map.1 hline
      exact (residueOf_line (h r hr)).2 (hshows r hr)
    · rw [List.mem_singleton.1 hline]
      rfl

/-! ## The agreement -/

theorem Report.Covers.begins {r : Report} {path : List Segment} (h : r.Covers path) :
    r.path <+: path := by
  rw [Report.Covers] at h
  split at h
  · obtain ⟨rest, -, rfl⟩ := h
    exact List.prefix_append _ _
  · exact h ▸ List.prefix_refl _

theorem Reports.named_report {paths : Set (List Segment)} {reports : List Report}
    (h : Reports paths reports) : ∀ r ∈ reports, Named r.path := by
  intro r hr
  obtain ⟨hne, path, hpath, hcovers⟩ := h.covers r hr
  exact ⟨hne, fun s hs => (h.named path hpath).2 s (hcovers.begins.subset hs)⟩

/-- A directory of packages, kept, and a file that is not. -/
def partlyKept : List Report :=
  [⟨["node_modules".toList], true, true⟩, ⟨["notes.txt".toList], false, false⟩]

end AgenticGit.Workspace.Scrub
