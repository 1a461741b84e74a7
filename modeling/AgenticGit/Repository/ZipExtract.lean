import Mathlib.Algebra.Order.BigOperators.Group.List
import Mathlib.Algebra.Order.Ring.Nat
import AgenticGit.Lib.FileTree
import AgenticGit.Repository.ZipArchive

/- Writing an archive out: `extractZipArchive` of `zip-archive.ts`.

   Correspondence (TypeScript ↔ Lean):
     the file system, `files`, `skipped`, `written` ↔ `Extraction`
     `mkdir`, `writeFile`, `chmod`                  ↔ the calls of a `FileSystem`
     the body of the `for`                          ↔ `extractEntry`
     `options.maxBytes`                             ↔ `maxBytes`

   `Extraction.writes` is a record of what was written where, and nothing reads it.

   `written` counts the sizes the index declares, before an entry is read. A stored entry is
   written as long as it is, whatever it declares; a deflated one that declares nothing may
   still be one byte. So the limit bounds what is declared (`extractEntries_run`), and what
   is written only of an index that does not declare too little (`extraction_bounded_iff`).

   What is proved: everything is written below the destination, no read is outside the
   buffer, and the limit is kept exactly when the entries that can be unpacked declare at
   least what they hold. -/
namespace AgenticGit.Repository
open AgenticGit.Buffers AgenticGit.Shared AgenticGit.FileTree AgenticGit.Runtime

inductive ExtractError where
  | zip (error : ZipError)
  | file (error : FileError)
  deriving DecidableEq, Repr

structure ExtractedArchive where
  files : Nat
  skipped : Nat
  bytes : Nat
  deriving DecidableEq, Repr

structure Extraction where
  fs : FileSystem (List Char) Byte
  writes : List (Location (List Char) × List Byte)
  files : Nat
  skipped : Nat
  written : Nat

def Extraction.start (fs : FileSystem (List Char) Byte) : Extraction := ⟨fs, [], 0, 0, 0⟩

abbrev ExtractM := EStateM ExtractError Extraction

/-! ## The calls -/

def mkdir (path : ResolvedPath) : ExtractM Unit := fun e =>
  match e.fs.mkdirs path with
  | .ok fs => .ok () { e with fs }
  | .error error => .error (.file error) e

def writeFile (path : ResolvedPath) (bytes : List Byte) : ExtractM Unit := fun e =>
  match e.fs.writeFile path bytes with
  | .ok fs => .ok () { e with fs, writes := e.writes ++ [(e.fs.locate path, bytes)] }
  | .error error => .error (.file error) e

def chmod (path : ResolvedPath) (mode : Nat) : ExtractM Unit :=
  modify fun e => { e with fs := e.fs.chmod path mode }

def liftZip {α : Type} (result : Except ZipError α) : ExtractM α := fun e =>
  match result with
  | .ok a => .ok a e
  | .error error => .error (.zip error) e

/-! ## One entry -/

/-- A symlink, a socket, a device: anything that is not a plain file. -/
def ZipEntry.isSpecial (entry : ZipEntry) : Bool :=
  match entry.mode with
  | none => false
  | some mode => mode &&& 0xf000 ≠ 0 ∧ mode &&& 0xf000 ≠ 0x8000

def ZipEntry.isExecutable (entry : ZipEntry) : Bool :=
  match entry.mode with
  | none => false
  | some mode => mode &&& 0o111 ≠ 0

section
variable (inflateRawSync : List Byte → Nat → Except String (List Byte)) (archive : List Byte)
  (root : ResolvedPath) (limit : Nat)

def extractFile (entry : ZipEntry) (target : ResolvedPath) : ExtractM Unit := do
  let bytes ← liftZip (entryBytes inflateRawSync archive entry)
  mkdir target.dropLast
  writeFile target bytes
  if entry.isExecutable then chmod target 0o755 else pure ()

/-- The body of the `for`. -/
def extractEntry (entry : ZipEntry) : ExtractM Unit :=
  match zipEntryTargetPath root entry.name with
  | none => throw (.zip (.archive ("That ZIP tries to write outside the folder it is being " ++
      "unpacked into (" ++ entry.name ++ ")")))
  | some target =>
    if entry.isDirectory then mkdir target
    else if entry.isSpecial then modify fun e => { e with skipped := e.skipped + 1 }
    else do
      modify fun e => { e with written := e.written + entry.uncompressedSize }
      let e ← get
      if e.written > limit then
        throw (.zip (.archive "That ZIP unpacks to more than this deployment will accept"))
      else do
        extractFile inflateRawSync archive entry target
        modify fun e => { e with files := e.files + 1 }

def extractEntries : List ZipEntry → ExtractM Unit
  | [] => pure ()
  | entry :: entries => do
    extractEntry inflateRawSync archive root limit entry
    extractEntries entries

end

/-- Writes the archive out under `destination`. -/
def extractZipArchive [LossyUtf8]
    (inflateRawSync : List Byte → Nat → Except String (List Byte)) (cwd : ResolvedPath)
    (archive : List Byte) (destination : String) (maxBytes : Option Nat) :
    ExtractM ExtractedArchive := do
  let limit := maxBytes.getD MAX_ARCHIVE_EXTRACTED_BYTES
  let root := resolve cwd destination
  let entries ← liftZip (readZipEntries archive)
  mkdir root
  extractEntries inflateRawSync archive root limit entries
  let e ← get
  return ⟨e.files, e.skipped, e.written⟩

theorem modify_bind {α : Type} (f : Extraction → Extraction) (k : PUnit → ExtractM α)
    (e : Extraction) : (modify f >>= k : ExtractM α) e = k ⟨⟩ (f e) := rfl

theorem get_bind {α : Type} (k : Extraction → ExtractM α) (e : Extraction) :
    (get >>= k : ExtractM α) e = k e e := rfl

/-! ## What an entry is, without a limit -/

/-- A file that is written: no directory, and nothing special. -/
def ZipEntry.isFile (entry : ZipEntry) : Bool := !entry.isDirectory && !entry.isSpecial

def ZipEntry.declaredSize (entry : ZipEntry) : Nat :=
  if entry.isFile then entry.uncompressedSize else 0

def declaredTotal (entries : List ZipEntry) : Nat := (entries.map (·.declaredSize)).sum

section
variable (inflateRawSync : List Byte → Nat → Except String (List Byte)) (archive : List Byte)
  (root : ResolvedPath)

def contents (entry : ZipEntry) : List Byte :=
  if entry.isFile then (entryBytes inflateRawSync archive entry).toOption.getD [] else []

def contentsTotal (entries : List ZipEntry) : Nat :=
  (entries.map (fun entry => (contents inflateRawSync archive entry).length)).sum

def placeFile (fs : FileSystem (List Char) Byte) (entry : ZipEntry) (target : ResolvedPath) :
    Except ExtractError (FileSystem (List Char) Byte) := do
  let bytes ← (entryBytes inflateRawSync archive entry).mapError .zip
  let fs ← (fs.mkdirs target.dropLast).mapError .file
  let fs ← (fs.writeFile target bytes).mapError .file
  return if entry.isExecutable then fs.chmod target 0o755 else fs

def placeEntry (fs : FileSystem (List Char) Byte) (entry : ZipEntry) :
    Option (FileSystem (List Char) Byte) :=
  match zipEntryTargetPath root entry.name with
  | none => none
  | some target =>
    if entry.isDirectory then (fs.mkdirs target).toOption
    else if entry.isSpecial then some fs
    else (placeFile inflateRawSync archive fs entry target).toOption

def placeEntries (fs : FileSystem (List Char) Byte) (entries : List ZipEntry) :
    Option (FileSystem (List Char) Byte) :=
  entries.foldlM (placeEntry inflateRawSync archive root) fs

end

/-! ## Below the destination -/

/-- The destination is there, and no link is below it. -/
structure Ready (base : FileSystem (List Char) Byte) (root : ResolvedPath) : Prop where
  top : base [] = some .directory
  standing : Standing base [] root
  linkFree : LinkFree base (base.locate root)

/-- Nothing is changed but below the destination, and no directory or link is. -/
structure Below (base : FileSystem (List Char) Byte) (root : ResolvedPath)
    (fs : FileSystem (List Char) Byte) : Prop where
  grown : Grown base fs
  outside : ∀ place, ¬Inside (base.locate root) place → fs place = base place

section
variable {base fs fs' : FileSystem (List Char) Byte} {root target : ResolvedPath}

theorem Below.refl (base : FileSystem (List Char) Byte) (root : ResolvedPath) :
    Below base root base := ⟨.refl base, fun _ _ => rfl⟩

theorem Ready.directory (hready : Ready base root) (hbelow : Below base root fs) :
    fs (fs.locate root) = some .directory := by
  rw [hbelow.grown.locate]
  exact hbelow.grown.directory (hready.standing.locateFrom hready.top)

theorem Ready.place (hready : Ready base root) (hbelow : Below base root fs)
    (htarget : root <+: target) :
    target = root ∨ Inside (base.locate root) (fs.locate target) := by
  obtain ⟨rest, rfl⟩ := htarget
  cases rest with
  | nil => exact .inl (List.append_nil root)
  | cons name rest =>
    refine .inr ⟨name, rest, ?_⟩
    rw [hbelow.grown.locate, locate_inside hready.linkFree]

theorem mkdirs_below (hready : Ready base root) (hbelow : Below base root fs)
    (htarget : root <+: target) (h : fs.mkdirs target = .ok fs') : Below base root fs' := by
  refine ⟨hbelow.grown.trans (mkdirs_grows h), fun place hplace => ?_⟩
  rw [← hbelow.outside place hplace]
  obtain ⟨rest, rfl⟩ := htarget
  have hstanding := hready.standing.grown hbelow.grown
  rw [FileSystem.mkdirs, mkdirsFrom_append hstanding, hbelow.grown.locateFrom] at h
  have hfree := hready.linkFree.grown hbelow.grown
  rw [← List.append_nil (base.locateFrom [] root)] at h
  exact mkdirsFrom_inside hfree h hplace

theorem mkdirs_dropLast_below (hready : Ready base root) (hbelow : Below base root fs)
    (htarget : root <+: target) (h : fs.mkdirs target.dropLast = .ok fs') :
    Below base root fs' := by
  obtain ⟨rest, rfl⟩ := htarget
  rcases List.eq_nil_or_concat rest with rfl | ⟨front, name, rfl⟩
  · -- above the destination every directory is there
    rw [List.append_nil] at h
    have hstanding := hready.standing.grown hbelow.grown
    rw [FileSystem.mkdirs, hstanding.mkdirsFrom (List.dropLast_prefix root)] at h
    cases h
    exact hbelow
  · rw [List.concat_eq_append, ← List.append_assoc, List.dropLast_concat] at h
    exact mkdirs_below hready hbelow (List.prefix_append root front) h

theorem writeFile_below (hready : Ready base root) (hbelow : Below base root fs)
    (htarget : root <+: target) {bytes : List Byte} (h : fs.writeFile target bytes = .ok fs') :
    Inside (base.locate root) (fs.locate target) ∧ Below base root fs' := by
  obtain ⟨mode, heq, hplace⟩ := writeFile_cases h
  rcases hready.place hbelow htarget with rfl | hinside
  · rw [hready.directory hbelow] at hplace
    rcases hplace with hplace | ⟨old, hplace⟩
    · cases hplace
    · cases hplace
  · refine ⟨hinside, hbelow.grown.trans (writeFile_grows h), fun place hout => ?_⟩
    have hne : place ≠ fs.locate target := fun he => hout (he ▸ hinside)
    rw [heq, set_other fs _ hne, hbelow.outside place hout]

theorem chmod_below (hready : Ready base root) (hbelow : Below base root fs)
    (htarget : root <+: target) (mode : Nat) : Below base root (fs.chmod target mode) := by
  refine ⟨hbelow.grown.trans (chmod_grows fs target mode), fun place hout => ?_⟩
  rw [← hbelow.outside place hout]
  rcases chmod_cases fs target mode with heq | ⟨bytes, old, hplace, heq⟩
  · rw [heq]
  · rcases hready.place hbelow htarget with rfl | hinside
    · rw [hready.directory hbelow] at hplace
      cases hplace
    · have hne : place ≠ fs.locate target := fun he => hout (he ▸ hinside)
      rw [heq, set_other fs _ hne]

end

/-! ## One entry after the other -/

def totalWritten (writes : List (Location (List Char) × List Byte)) : Nat :=
  (writes.map (·.2.length)).sum

section
variable (inflateRawSync : List Byte → Nat → Except String (List Byte)) (archive : List Byte)
  (base : FileSystem (List Char) Byte) (root : ResolvedPath) (limit : Nat)

/-- What holds when these entries have been unpacked. -/
structure Unpacked (processed : List ZipEntry) (e : Extraction) : Prop where
  placed : placeEntries inflateRawSync archive root base processed = some e.fs
  below : Below base root e.fs
  inside : ∀ write ∈ e.writes, Inside (base.locate root) write.1
  total : totalWritten e.writes = contentsTotal inflateRawSync archive processed
  declared : e.written = declaredTotal processed
  within : declaredTotal processed ≤ limit

/-- What an extraction that fails on an entry leaves. -/
structure Failed (processed : List ZipEntry) (entry : ZipEntry) (error : ExtractError)
    (e : Extraction) : Prop where
  placed : placeEntries inflateRawSync archive root base processed ≠ none
  below : Below base root e.fs
  inside : ∀ write ∈ e.writes, Inside (base.locate root) write.1
  total : totalWritten e.writes = contentsTotal inflateRawSync archive processed
  within : declaredTotal processed ≤ limit
  inBuffer : error ≠ .zip .outOfRange
  cause : placeEntries inflateRawSync archive root base (processed ++ [entry]) = none ∨
    limit < declaredTotal (processed ++ [entry])

variable {inflateRawSync archive base root limit}

theorem placeEntries_snoc (processed : List ZipEntry) (entry : ZipEntry) :
    placeEntries inflateRawSync archive root base (processed ++ [entry]) =
      (placeEntries inflateRawSync archive root base processed).bind fun fs =>
        placeEntry inflateRawSync archive root fs entry := by
  rw [placeEntries, List.foldlM_append]
  simp only [List.foldlM_cons, List.foldlM_nil, bind_pure]
  rfl

theorem declaredTotal_snoc (processed : List ZipEntry) (entry : ZipEntry) :
    declaredTotal (processed ++ [entry]) = declaredTotal processed + entry.declaredSize := by
  rw [declaredTotal, List.map_append, List.sum_append]
  rfl

theorem contentsTotal_snoc (processed : List ZipEntry) (entry : ZipEntry) :
    contentsTotal inflateRawSync archive (processed ++ [entry]) =
      contentsTotal inflateRawSync archive processed +
        (contents inflateRawSync archive entry).length := by
  rw [contentsTotal, List.map_append, List.sum_append]
  rfl

/-- **A file is unpacked, or is not.** -/
theorem extractFile_cases (hready : Ready base root) {e : Extraction}
    (hbelow : Below base root e.fs) (entry : ZipEntry) {target : ResolvedPath}
    (htarget : root <+: target) :
    (∃ bytes fs, entryBytes inflateRawSync archive entry = .ok bytes ∧
        placeFile inflateRawSync archive e.fs entry target = .ok fs ∧ Below base root fs ∧
        Inside (base.locate root) (e.fs.locate target) ∧
        extractFile inflateRawSync archive entry target e =
          .ok () { e with fs, writes := e.writes ++ [(e.fs.locate target, bytes)] }) ∨
      ∃ error fs, placeFile inflateRawSync archive e.fs entry target = .error error ∧
        Below base root fs ∧ error ≠ .zip .outOfRange ∧
        extractFile inflateRawSync archive entry target e = .error error { e with fs } := by
  cases hbytes : entryBytes inflateRawSync archive entry with
  | error error =>
    refine .inr ⟨.zip error, e.fs, ?_, hbelow, ?_, ?_⟩
    · simp only [placeFile, hbytes]
      rfl
    · intro h
      cases h
      exact entryBytes_inside inflateRawSync archive entry hbytes
    · simp only [extractFile, hbytes]
      rfl
  | ok bytes =>
    cases hmkdir : e.fs.mkdirs target.dropLast with
    | error error =>
      refine .inr ⟨.file error, e.fs, ?_, hbelow, (fun h => by cases h), ?_⟩
      · simp only [placeFile, hbytes, hmkdir]
        rfl
      · simp only [extractFile, liftZip, hbytes, mkdir, bind, EStateM.bind, hmkdir]
    | ok fs =>
      have hbelow' := mkdirs_dropLast_below hready hbelow htarget hmkdir
      have hlocate : fs.locate target = e.fs.locate target := (mkdirs_grows hmkdir).locate target
      cases hwrite : fs.writeFile target bytes with
      | error error =>
        refine .inr ⟨.file error, fs, ?_, hbelow', (fun h => by cases h), ?_⟩
        · simp only [placeFile, hbytes, hmkdir, hwrite, Except.mapError, bind, Except.bind]
        · simp only [extractFile, liftZip, hbytes, mkdir, writeFile, bind, EStateM.bind, hmkdir,
            hwrite]
      | ok fs' =>
        obtain ⟨hinside, hbelow''⟩ := writeFile_below hready hbelow' htarget hwrite
        rw [hlocate] at hinside
        cases hexecutable : entry.isExecutable with
        | false =>
          refine .inl ⟨bytes, fs', rfl, ?_, hbelow'', hinside, ?_⟩
          · simp only [placeFile, hbytes, hmkdir, hwrite, hexecutable, Except.mapError, bind,
              Except.bind]
            rfl
          · simp only [extractFile, liftZip, hbytes, mkdir, writeFile, bind, EStateM.bind,
              hmkdir, hwrite, hexecutable, hlocate]
            rfl
        | true =>
          refine .inl ⟨bytes, fs'.chmod target 0o755, rfl, ?_,
            chmod_below hready hbelow'' htarget _, hinside, ?_⟩
          · simp only [placeFile, hbytes, hmkdir, hwrite, hexecutable, Except.mapError, bind,
              Except.bind]
            rfl
          · simp only [extractFile, liftZip, hbytes, mkdir, writeFile, bind, EStateM.bind,
              hmkdir, hwrite, hexecutable, hlocate]
            rfl

theorem not_isFile {entry : ZipEntry} (h : entry.isFile = false) :
    entry.declaredSize = 0 ∧ contents inflateRawSync archive entry = [] := by
  rw [ZipEntry.declaredSize, contents, h]
  exact ⟨rfl, rfl⟩

theorem totalWritten_snoc (writes : List (Location (List Char) × List Byte))
    (place : Location (List Char)) (bytes : List Byte) :
    totalWritten (writes ++ [(place, bytes)]) = totalWritten writes + bytes.length := by
  rw [totalWritten, List.map_append, List.sum_append]
  rfl

namespace Unpacked
variable {processed : List ZipEntry} {entry : ZipEntry} {e e' : Extraction}

theorem noFile (h : Unpacked inflateRawSync archive base root limit processed e)
    (hfile : entry.isFile = false) (hbelow : Below base root e'.fs)
    (hplace : placeEntry inflateRawSync archive root e.fs entry = some e'.fs)
    (hwrites : e'.writes = e.writes) (hwritten : e'.written = e.written) :
    Unpacked inflateRawSync archive base root limit (processed ++ [entry]) e' := by
  obtain ⟨hsize, hcontents⟩ := @not_isFile inflateRawSync archive entry hfile
  have hdeclared : declaredTotal (processed ++ [entry]) = declaredTotal processed := by
    rw [declaredTotal_snoc, hsize, Nat.add_zero]
  refine ⟨?_, hbelow, hwrites ▸ h.inside, ?_, ?_, hdeclared ▸ h.within⟩
  · rw [placeEntries_snoc, h.placed]
    exact hplace
  · rw [contentsTotal_snoc, hcontents, hwrites]
    exact h.total
  · rw [hdeclared, hwritten]
    exact h.declared

theorem file (h : Unpacked inflateRawSync archive base root limit processed e)
    (hfile : entry.isFile = true) (hbelow : Below base root e'.fs)
    (hplace : placeEntry inflateRawSync archive root e.fs entry = some e'.fs)
    {place : Location (List Char)} (hinside : Inside (base.locate root) place)
    {bytes : List Byte} (hbytes : entryBytes inflateRawSync archive entry = .ok bytes)
    (hwrites : e'.writes = e.writes ++ [(place, bytes)])
    (hwritten : e'.written = e.written + entry.uncompressedSize) (hlimit : e'.written ≤ limit) :
    Unpacked inflateRawSync archive base root limit (processed ++ [entry]) e' := by
  have hdeclared : e'.written = declaredTotal (processed ++ [entry]) := by
    rw [declaredTotal_snoc, ← h.declared, hwritten, ZipEntry.declaredSize, hfile]
    rfl
  refine ⟨?_, hbelow, ?_, ?_, hdeclared, hdeclared ▸ hlimit⟩
  · rw [placeEntries_snoc, h.placed]
    exact hplace
  · rw [hwrites]
    intro write hmem
    rcases List.mem_append.mp hmem with hmem | hmem
    · exact h.inside write hmem
    · rw [List.mem_singleton.mp hmem]
      exact hinside
  · have hcontents : contents inflateRawSync archive entry = bytes := by
      rw [contents, hfile, hbytes]
      rfl
    rw [contentsTotal_snoc, hwrites, totalWritten_snoc, h.total, hcontents]

theorem failed (h : Unpacked inflateRawSync archive base root limit processed e)
    {error : ExtractError} (hbelow : Below base root e'.fs) (hwrites : e'.writes = e.writes)
    (herror : error ≠ .zip .outOfRange)
    (hcause : placeEntry inflateRawSync archive root e.fs entry = none ∨
      limit < e.written + entry.declaredSize) :
    Failed inflateRawSync archive base root limit processed entry error e' := by
  refine ⟨?_, hbelow, hwrites ▸ h.inside, hwrites ▸ h.total, h.within, herror, ?_⟩
  · rw [h.placed]
    exact Option.some_ne_none _
  · rw [placeEntries_snoc, h.placed, declaredTotal_snoc, ← h.declared]
    exact hcause

end Unpacked

variable {processed : List ZipEntry} {e : Extraction}

theorem extractEntry_file (hready : Ready base root)
    (h : Unpacked inflateRawSync archive base root limit processed e) {entry : ZipEntry}
    {target : ResolvedPath} (hpath : zipEntryTargetPath root entry.name = some target)
    (hdirectory : entry.isDirectory = false) (hspecial : entry.isSpecial = false) :
    (∃ e', extractEntry inflateRawSync archive root limit entry e = .ok () e' ∧
        Unpacked inflateRawSync archive base root limit (processed ++ [entry]) e') ∨
      ∃ error e', extractEntry inflateRawSync archive root limit entry e = .error error e' ∧
        Failed inflateRawSync archive base root limit processed entry error e' := by
  have hfile : entry.isFile = true := by rw [ZipEntry.isFile, hdirectory, hspecial]; rfl
  have hsize : entry.declaredSize = entry.uncompressedSize := by
    rw [ZipEntry.declaredSize, hfile, if_pos rfl]
  have hplace (fs : FileSystem (List Char) Byte) :
      placeEntry inflateRawSync archive root fs entry =
        (placeFile inflateRawSync archive fs entry target).toOption := by
    rw [placeEntry, hpath]
    simp only [hdirectory, hspecial]
    rfl
  let counted : Extraction := { e with written := e.written + entry.uncompressedSize }
  by_cases hlimit : e.written + entry.uncompressedSize > limit
  · refine .inr ⟨.zip (.archive "That ZIP unpacks to more than this deployment will accept"),
      counted, ?_, h.failed h.below rfl (fun he => by cases he) (.inr (hsize ▸ hlimit))⟩
    · rw [extractEntry, hpath]
      simp only [hdirectory, hspecial, modify_bind, get_bind,
        Bool.false_eq_true, if_false, hlimit, if_true]
      rfl
  · have hextract : extractEntry inflateRawSync archive root limit entry e =
        (extractFile inflateRawSync archive entry target >>= fun _ =>
          modify fun e => { e with files := e.files + 1 }) counted := by
      rw [extractEntry, hpath]
      simp only [hdirectory, hspecial, modify_bind, get_bind,
        Bool.false_eq_true, if_false, hlimit]
      rfl
    rcases extractFile_cases hready (show Below base root counted.fs from h.below) entry
        (zipEntryTargetPath_below hpath) with
      ⟨bytes, fs, hbytes, hplaced, hbelow, hinside, hrun⟩ |
      ⟨error, fs, hplaced, hbelow, herror, hrun⟩
    · refine .inl ⟨{ counted with
        fs, writes := e.writes ++ [(e.fs.locate target, bytes)], files := e.files + 1 }, ?_,
        h.file hfile hbelow ?_ hinside hbytes rfl rfl (Nat.not_lt.mp hlimit)⟩
      · rw [hextract]
        simp only [bind, EStateM.bind, hrun]
        rfl
      · rw [hplace]
        exact congrArg Except.toOption hplaced
    · refine .inr ⟨error, { counted with fs }, ?_, h.failed hbelow rfl herror (.inl ?_)⟩
      · rw [hextract]
        simp only [bind, EStateM.bind, hrun]
      · rw [hplace]
        exact congrArg Except.toOption hplaced

/-- **One entry** is unpacked, or the extraction fails on it. -/
theorem extractEntry_step (hready : Ready base root)
    (h : Unpacked inflateRawSync archive base root limit processed e) (entry : ZipEntry) :
    (∃ e', extractEntry inflateRawSync archive root limit entry e = .ok () e' ∧
        Unpacked inflateRawSync archive base root limit (processed ++ [entry]) e') ∨
      ∃ error e', extractEntry inflateRawSync archive root limit entry e = .error error e' ∧
        Failed inflateRawSync archive base root limit processed entry error e' := by
  cases hpath : zipEntryTargetPath root entry.name with
  | none =>
    refine .inr ⟨_, e, by rw [extractEntry, hpath]; rfl, h.failed h.below rfl ?_ (.inl ?_)⟩
    · exact fun he => by cases he
    · rw [placeEntry, hpath]
  | some target =>
    have htarget := zipEntryTargetPath_below hpath
    cases hdirectory : entry.isDirectory with
    | true =>
      have hfile : entry.isFile = false := by rw [ZipEntry.isFile, hdirectory]; rfl
      have hextract : extractEntry inflateRawSync archive root limit entry e = mkdir target e := by
        rw [extractEntry, hpath]
        simp only [hdirectory, if_true]
      have hplace : placeEntry inflateRawSync archive root e.fs entry =
          (e.fs.mkdirs target).toOption := by
        rw [placeEntry, hpath]
        simp only [hdirectory, if_true]
      cases hmkdir : e.fs.mkdirs target with
      | error error =>
        rw [hmkdir] at hplace
        refine .inr ⟨.file error, e, ?_, h.failed h.below rfl (fun he => by cases he) (.inl hplace)⟩
        rw [hextract, mkdir, hmkdir]
      | ok fs =>
        rw [hmkdir] at hplace
        have hbelow := mkdirs_below hready h.below htarget hmkdir
        refine .inl ⟨{ e with fs }, ?_, h.noFile hfile hbelow hplace rfl rfl⟩
        rw [hextract, mkdir, hmkdir]
    | false =>
      cases hspecial : entry.isSpecial with
      | true =>
        have hfile : entry.isFile = false := by rw [ZipEntry.isFile, hdirectory, hspecial]; rfl
        refine .inl ⟨{ e with skipped := e.skipped + 1 }, ?_, h.noFile hfile h.below ?_ rfl rfl⟩
        · rw [extractEntry, hpath]
          simp only [hdirectory, hspecial]
          rfl
        · rw [placeEntry, hpath]
          simp only [hdirectory, hspecial]
          rfl
      | false =>
        exact extractEntry_file hready h hpath hdirectory hspecial

/-- **All entries** are unpacked, or the extraction fails on one of them. -/
theorem extractEntries_run (hready : Ready base root)
    (h : Unpacked inflateRawSync archive base root limit processed e) (entries : List ZipEntry) :
    (∃ e', extractEntries inflateRawSync archive root limit entries e = .ok () e' ∧
        Unpacked inflateRawSync archive base root limit (processed ++ entries) e') ∨
      ∃ front entry behind error e', entries = front ++ entry :: behind ∧
        extractEntries inflateRawSync archive root limit entries e = .error error e' ∧
        Failed inflateRawSync archive base root limit (processed ++ front) entry error e' := by
  induction entries generalizing processed e with
  | nil => exact .inl ⟨e, rfl, by rwa [List.append_nil]⟩
  | cons entry entries ih =>
    rcases extractEntry_step hready h entry with ⟨e', hrun, hnext⟩ | ⟨error, e', hrun, hfailed⟩
    · have htail : extractEntries inflateRawSync archive root limit (entry :: entries) e =
          extractEntries inflateRawSync archive root limit entries e' := by
        rw [extractEntries]
        simp only [bind, EStateM.bind, hrun]
      rw [htail]
      rcases ih hnext with ⟨e'', hok, hall⟩ |
        ⟨front, entry', behind, error, e'', rfl, herr, hfailed⟩
      · rw [List.append_assoc] at hall
        exact .inl ⟨e'', hok, hall⟩
      · rw [List.append_assoc] at hfailed
        exact .inr ⟨entry :: front, entry', behind, error, e'', rfl, herr, hfailed⟩
    · refine .inr ⟨[], entry, entries, error, e', rfl, ?_, ?_⟩
      · rw [extractEntries]
        simp only [bind, EStateM.bind, hrun]
      · rwa [List.append_nil]

theorem placeEntries_front {front entries : List ZipEntry} (h : front <+: entries)
    (hplaced : placeEntries inflateRawSync archive root base entries ≠ none) :
    placeEntries inflateRawSync archive root base front ≠ none := by
  obtain ⟨behind, rfl⟩ := h
  intro hnone
  rw [placeEntries] at hnone
  rw [placeEntries, List.foldlM_append, hnone] at hplaced
  exact hplaced rfl

theorem declaredTotal_front {front entries : List ZipEntry} (h : front <+: entries) :
    declaredTotal front ≤ declaredTotal entries := by
  obtain ⟨behind, rfl⟩ := h
  rw [declaredTotal, declaredTotal, List.map_append, List.sum_append]
  exact Nat.le_add_right _ _

theorem contentsTotal_front {front entries : List ZipEntry} (h : front <+: entries) :
    contentsTotal inflateRawSync archive front ≤ contentsTotal inflateRawSync archive entries := by
  obtain ⟨behind, rfl⟩ := h
  rw [contentsTotal, contentsTotal, List.map_append, List.sum_append]
  exact Nat.le_add_right _ _

end

/-! ## The whole archive -/

/-- The state an extraction leaves, with an answer or an exception. -/
def stateOf {α : Type} : EStateM.Result ExtractError Extraction α → Extraction
  | .ok _ e => e
  | .error _ e => e

section
variable [LossyUtf8] (inflateRawSync : List Byte → Nat → Except String (List Byte))
  (cwd : ResolvedPath) (archive : List Byte) (destination : String)
  (fs : FileSystem (List Char) Byte)

/-- One call of `extractZipArchive`. -/
def extraction (maxBytes : Option Nat) :
    EStateM.Result ExtractError Extraction ExtractedArchive :=
  extractZipArchive inflateRawSync cwd archive destination maxBytes (.start fs)

/-- **What an extraction keeps to**: everything it writes is below the destination, and
nothing else is changed once the destination is made; no more than the limit is written;
an archive that does not fit is refused by an exception; no read is outside the buffer. -/
structure Bounded (maxBytes : Option Nat) : Prop where
  inside : ∀ write ∈ (stateOf (extraction inflateRawSync cwd archive destination fs
    maxBytes)).writes, Inside (fs.locate (resolve cwd destination)) write.1
  outside : ∃ base, (base = fs ∨ fs.mkdirs (resolve cwd destination) = .ok base) ∧
    ∀ place, ¬Inside (fs.locate (resolve cwd destination)) place →
      (stateOf (extraction inflateRawSync cwd archive destination fs maxBytes)).fs place =
        base place
  total : totalWritten (stateOf (extraction inflateRawSync cwd archive destination fs
    maxBytes)).writes ≤ maxBytes.getD MAX_ARCHIVE_EXTRACTED_BYTES
  refused : ∀ answer e, extraction inflateRawSync cwd archive destination fs maxBytes =
      .ok answer e →
    ∃ entries, readZipEntries archive = .ok entries ∧ entries.length ≤ MAX_ARCHIVE_ENTRIES ∧
      contentsTotal inflateRawSync archive entries ≤ maxBytes.getD MAX_ARCHIVE_EXTRACTED_BYTES
  inBuffer : ∀ e, extraction inflateRawSync cwd archive destination fs maxBytes ≠
    .error (.zip .outOfRange) e

/-- The entries that can be unpacked, from the first on, declare at least what they hold. -/
def DeclaresEnough : Prop :=
  ∀ entries base, readZipEntries archive = .ok entries →
    fs.mkdirs (resolve cwd destination) = .ok base → ∀ front, front <+: entries →
      placeEntries inflateRawSync archive (resolve cwd destination) base front ≠ none →
      contentsTotal inflateRawSync archive front ≤ declaredTotal front

variable {inflateRawSync cwd archive destination fs}

theorem extraction_begins (maxBytes : Option Nat) :
    (∃ error, error ≠ .zip .outOfRange ∧
        (∀ entries base, readZipEntries archive = .ok entries →
          fs.mkdirs (resolve cwd destination) ≠ .ok base) ∧
        extraction inflateRawSync cwd archive destination fs maxBytes =
          .error error (.start fs)) ∨
      ∃ entries base, readZipEntries archive = .ok entries ∧
        fs.mkdirs (resolve cwd destination) = .ok base ∧
        extraction inflateRawSync cwd archive destination fs maxBytes =
          (extractEntries inflateRawSync archive (resolve cwd destination)
            (maxBytes.getD MAX_ARCHIVE_EXTRACTED_BYTES) entries >>= fun _ => do
              let e ← get
              return ⟨e.files, e.skipped, e.written⟩) (.start base) := by
  cases hentries : readZipEntries archive with
  | error error =>
    refine .inl ⟨.zip error, ?_, (fun entries base he => by cases he), ?_⟩
    · intro h
      cases h
      exact readZipEntries_inside archive hentries
    · simp only [extraction, extractZipArchive, liftZip, bind, EStateM.bind, hentries]
  | ok entries =>
    cases hmkdir : fs.mkdirs (resolve cwd destination) with
    | error error =>
      refine .inl ⟨.file error, (fun h => by cases h), (fun _ _ _ he => by cases he), ?_⟩
      simp only [extraction, extractZipArchive, liftZip, mkdir, Extraction.start, bind,
        EStateM.bind, hentries, hmkdir]
    | ok base =>
      refine .inr ⟨entries, base, rfl, rfl, ?_⟩
      simp only [extraction, extractZipArchive, liftZip, mkdir, Extraction.start, bind,
        EStateM.bind, hentries, hmkdir]

omit [LossyUtf8] in
theorem ready_of_mkdirs {base : FileSystem (List Char) Byte} {root : ResolvedPath}
    (htop : fs [] = some .directory) (hfree : LinkFree fs (fs.locate root))
    (h : fs.mkdirs root = .ok base) : Ready base root := by
  have hgrown := mkdirs_grows h
  refine ⟨hgrown.directory htop, mkdirsFrom_standing h, ?_⟩
  rw [hgrown.locate]
  exact hfree.grown hgrown

/-- **A call** is refused before the first entry, unpacks them all or fails on one. -/
theorem extraction_run (htop : fs [] = some .directory)
    (hfree : LinkFree fs (fs.locate (resolve cwd destination))) (maxBytes : Option Nat) :
    (∃ error, error ≠ .zip .outOfRange ∧
        (∀ entries base, readZipEntries archive = .ok entries →
          fs.mkdirs (resolve cwd destination) ≠ .ok base) ∧
        extraction inflateRawSync cwd archive destination fs maxBytes =
          .error error (.start fs)) ∨
      ∃ entries base, readZipEntries archive = .ok entries ∧
        fs.mkdirs (resolve cwd destination) = .ok base ∧
        ((∃ answer e, extraction inflateRawSync cwd archive destination fs maxBytes =
            .ok answer e ∧
          Unpacked inflateRawSync archive base (resolve cwd destination)
            (maxBytes.getD MAX_ARCHIVE_EXTRACTED_BYTES) entries e) ∨
        ∃ front entry behind error e, entries = front ++ entry :: behind ∧
          extraction inflateRawSync cwd archive destination fs maxBytes = .error error e ∧
          Failed inflateRawSync archive base (resolve cwd destination)
            (maxBytes.getD MAX_ARCHIVE_EXTRACTED_BYTES) front entry error e) := by
  rcases @extraction_begins _ inflateRawSync cwd archive destination fs maxBytes with
    hrefused | ⟨entries, base, hentries, hmkdir, hrun⟩
  · exact .inl hrefused
  · refine .inr ⟨entries, base, hentries, hmkdir, ?_⟩
    have hready := ready_of_mkdirs htop hfree hmkdir
    have hstart : Unpacked inflateRawSync archive base (resolve cwd destination)
        (maxBytes.getD MAX_ARCHIVE_EXTRACTED_BYTES) [] (.start base) :=
      ⟨rfl, .refl base _, (fun _ hmem => absurd hmem List.not_mem_nil), rfl, rfl, Nat.zero_le _⟩
    rcases extractEntries_run hready hstart entries with
      ⟨e, hok, hall⟩ | ⟨front, entry, behind, error, e, heq, herr, hfailed⟩
    · refine .inl ⟨⟨e.files, e.skipped, e.written⟩, e, ?_, hall⟩
      rw [hrun]
      simp only [bind, EStateM.bind, hok]
      rfl
    · refine .inr ⟨front, entry, behind, error, e, heq, ?_, hfailed⟩
      rw [hrun]
      simp only [bind, EStateM.bind, herr]

theorem bounded_of_declaresEnough (htop : fs [] = some .directory)
    (hfree : LinkFree fs (fs.locate (resolve cwd destination)))
    (h : DeclaresEnough inflateRawSync cwd archive destination fs) (maxBytes : Option Nat) :
    Bounded inflateRawSync cwd archive destination fs maxBytes := by
  rcases @extraction_run _ inflateRawSync cwd archive destination fs htop hfree maxBytes with
    ⟨error, herror, -, hrun⟩ | ⟨entries, base, hentries, hmkdir, hrun⟩
  · refine ⟨?_, ⟨fs, .inl rfl, ?_⟩, ?_, ?_, ?_⟩
    · rw [hrun]
      exact fun write hmem => absurd hmem List.not_mem_nil
    · rw [hrun]
      exact fun _ _ => rfl
    · rw [hrun]
      exact Nat.zero_le _
    · rw [hrun]
      exact fun answer e he => by cases he
    · rw [hrun]
      intro e he
      cases he
      exact herror rfl
  · have hlocate : base.locate (resolve cwd destination) = fs.locate (resolve cwd destination) :=
      (mkdirs_grows hmkdir).locate _
    rcases hrun with ⟨answer, e, hrun, hall⟩ |
      ⟨front, entry, behind, error, e, rfl, hrun, hfailed⟩
    · have hfits : contentsTotal inflateRawSync archive entries ≤
          maxBytes.getD MAX_ARCHIVE_EXTRACTED_BYTES :=
        Nat.le_trans (h entries base hentries hmkdir entries (List.prefix_refl entries)
          (by rw [hall.placed]; exact Option.some_ne_none _)) hall.within
      refine ⟨?_, ⟨base, .inr hmkdir, ?_⟩, ?_, ?_, ?_⟩
      · rw [hrun, ← hlocate]
        exact hall.inside
      · rw [hrun, ← hlocate]
        exact hall.below.outside
      · rw [hrun]
        exact hall.total.symm ▸ hfits
      · exact fun _ _ _ => ⟨entries, hentries, length_readZipEntries hentries, hfits⟩
      · rw [hrun]
        exact fun _ he => by cases he
    · have hplaced : placeEntries inflateRawSync archive (resolve cwd destination) base front ≠
          none := hfailed.placed
      have hfits : contentsTotal inflateRawSync archive front ≤
          maxBytes.getD MAX_ARCHIVE_EXTRACTED_BYTES :=
        Nat.le_trans (h _ base hentries hmkdir front (List.prefix_append _ _) hplaced)
          hfailed.within
      refine ⟨?_, ⟨base, .inr hmkdir, ?_⟩, ?_, ?_, ?_⟩
      · rw [hrun, ← hlocate]
        exact hfailed.inside
      · rw [hrun, ← hlocate]
        exact hfailed.below.outside
      · rw [hrun]
        exact hfailed.total.symm ▸ hfits
      · rw [hrun]
        exact fun _ _ he => by cases he
      · rw [hrun]
        intro e he
        cases he
        exact hfailed.inBuffer rfl

theorem declaresEnough_of_bounded (htop : fs [] = some .directory)
    (hfree : LinkFree fs (fs.locate (resolve cwd destination)))
    (h : ∀ maxBytes, Bounded inflateRawSync cwd archive destination fs maxBytes) :
    DeclaresEnough inflateRawSync cwd archive destination fs := by
  intro entries base hentries hmkdir front hfront hplaced
  have htotal := (h (some (declaredTotal front))).total
  rw [Option.getD_some] at htotal
  rcases @extraction_run _ inflateRawSync cwd archive destination fs htop hfree
    (some (declaredTotal front)) with ⟨-, -, hnone, -⟩ | ⟨entries', base', hentries', hmkdir', hrun⟩
  · exact absurd hmkdir (hnone entries base hentries)
  · obtain rfl := Except.ok.inj (hentries.symm.trans hentries')
    obtain rfl := Except.ok.inj (hmkdir.symm.trans hmkdir')
    rcases hrun with ⟨answer, e, hrun, hall⟩ |
      ⟨front', entry, behind, error, e, rfl, hrun, hfailed⟩
    · rw [hrun] at htotal
      exact Nat.le_trans (contentsTotal_front hfront) (hall.total ▸ htotal)
    · rw [hrun] at htotal
      -- the limit lets everything through that the front declares
      have hnot : ¬front' ++ [entry] <+: front := by
        intro hle
        rcases hfailed.cause with hnone | hlimit
        · exact placeEntries_front hle hplaced hnone
        · exact absurd (declaredTotal_front hle) (Nat.not_le.mpr hlimit)
      have hreached : front <+: front' := by
        have hstep : front' ++ [entry] <+: front' ++ entry :: behind :=
          ⟨behind, by rw [List.append_assoc]; rfl⟩
        rcases List.prefix_or_prefix_of_prefix hfront hstep with hle | hle
        · rcases List.prefix_concat_iff.mp hle with rfl | hle
          · exact absurd (List.prefix_refl _) hnot
          · exact hle
        · exact absurd hle hnot
      exact Nat.le_trans (contentsTotal_front hreached) (hfailed.total ▸ htotal)

/-! ## Sizes that are declared as they are -/

omit [LossyUtf8] in
/-- A stored entry is as long as it is; a deflated one is no longer than it declares, or one
byte. -/
theorem length_entryBytes
    (hinflate : ∀ raw length bytes, inflateRawSync raw length = .ok bytes → bytes.length ≤ length)
    {entry : ZipEntry} {bytes : List Byte}
    (h : entryBytes inflateRawSync archive entry = .ok bytes) :
    entry.compressionMethod = STORED ∧ bytes.length ≤ entry.compressedSize ∨
      entry.compressionMethod = DEFLATED ∧ bytes.length ≤ max entry.uncompressedSize 1 := by
  simp only [entryBytes] at h
  obtain ⟨_, -, h⟩ := except_bind_ok h
  obtain ⟨_, -, h⟩ := except_bind_ok h
  obtain ⟨_, -, h⟩ := except_bind_ok h
  obtain ⟨_, -, h⟩ := except_bind_ok h
  obtain ⟨_, -, h⟩ := except_bind_ok h
  split at h
  · rename_i hstored
    cases h
    refine .inl ⟨hstored, ?_⟩
    rw [subarray, List.length_drop, List.length_take]
    omega
  · split at h
    · cases h
    · rename_i hdeflated
      split at h
      · rename_i bytes' hbytes
        cases h
        exact .inr ⟨not_not.mp hdeflated, hinflate _ _ _ hbytes⟩
      · cases h

/-- Every stored entry declares what it holds, and a deflated one that declares nothing holds
nothing. -/
def SizesDeclared (inflateRawSync : List Byte → Nat → Except String (List Byte))
    (archive : List Byte) : Prop :=
  ∀ entries, readZipEntries archive = .ok entries → ∀ entry ∈ entries, entry.isFile = true →
    (entry.compressionMethod = STORED → entry.compressedSize ≤ entry.uncompressedSize) ∧
    (entry.compressionMethod = DEFLATED → entry.uncompressedSize = 0 →
      ∀ bytes, entryBytes inflateRawSync archive entry = .ok bytes → bytes = [])

omit [LossyUtf8] in
theorem contentsTotal_le {entries : List ZipEntry}
    (h : ∀ entry ∈ entries,
      (contents inflateRawSync archive entry).length ≤ entry.declaredSize) :
    contentsTotal inflateRawSync archive entries ≤ declaredTotal entries := by
  induction entries with
  | nil => exact Nat.le_refl 0
  | cons entry entries ih =>
    rw [contentsTotal, declaredTotal, List.map_cons, List.map_cons, List.sum_cons, List.sum_cons]
    exact Nat.add_le_add (h entry List.mem_cons_self)
      (ih fun other hmem => h other (List.mem_cons_of_mem _ hmem))

theorem declaresEnough_of_sizes
    (hinflate : ∀ raw length bytes, inflateRawSync raw length = .ok bytes → bytes.length ≤ length)
    (h : SizesDeclared inflateRawSync archive) :
    DeclaresEnough inflateRawSync cwd archive destination fs := by
  intro entries base hentries _ front hfront _
  refine contentsTotal_le fun entry hmem => ?_
  have hsizes := h entries hentries entry (hfront.subset hmem)
  cases hfile : entry.isFile with
  | false =>
    obtain ⟨-, hcontents⟩ := @not_isFile inflateRawSync archive entry hfile
    rw [hcontents]
    exact Nat.zero_le _
  | true =>
    obtain ⟨hstored, hdeflated⟩ := hsizes hfile
    rw [contents, hfile, if_pos rfl, ZipEntry.declaredSize, hfile, if_pos rfl]
    cases hbytes : entryBytes inflateRawSync archive entry with
    | error error => exact Nat.zero_le _
    | ok bytes =>
      show bytes.length ≤ entry.uncompressedSize
      rcases length_entryBytes hinflate hbytes with ⟨hmethod, hle⟩ | ⟨hmethod, hle⟩
      · exact Nat.le_trans hle (hstored hmethod)
      · by_cases hzero : entry.uncompressedSize = 0
        · rw [hdeflated hmethod hzero bytes hbytes]
          exact Nat.zero_le _
        · omega

/-- **Extraction stays inside its bounds** for every limit exactly when the entries that can
be unpacked declare at least what they hold; it does when every size is declared as it is. -/
theorem extraction_bounded_iff
    (hinflate : ∀ raw length bytes, inflateRawSync raw length = .ok bytes → bytes.length ≤ length)
    (htop : fs [] = some .directory)
    (hfree : LinkFree fs (fs.locate (resolve cwd destination))) :
    ((∀ maxBytes, Bounded inflateRawSync cwd archive destination fs maxBytes) ↔
      DeclaresEnough inflateRawSync cwd archive destination fs) ∧
    (SizesDeclared inflateRawSync archive →
      ∀ maxBytes, Bounded inflateRawSync cwd archive destination fs maxBytes) :=
  ⟨⟨declaresEnough_of_bounded htop hfree, bounded_of_declaresEnough htop hfree⟩, fun h =>
    bounded_of_declaresEnough htop hfree (declaresEnough_of_sizes hinflate h)⟩

end

/-! ## On a fixed archive -/

/-- An archive of one stored file `a` that holds `hi` and declares this size. -/
def storedArchive (declared : Byte) : List Byte :=
  [0x50, 0x4b, 3, 4, 20, 0, 0, 0, 0, 0, 0, 0, 0, 0, 0, 0, 0, 0, 2, 0, 0, 0, declared, 0, 0, 0,
    1, 0, 0, 0, 97, 104, 105] ++
  [0x50, 0x4b, 1, 2, 20, 0, 20, 0, 0, 0, 0, 0, 0, 0, 0, 0, 0, 0, 0, 0, 2, 0, 0, 0, declared, 0,
    0, 0, 1, 0, 0, 0, 0, 0, 0, 0, 0, 0, 0, 0, 0, 0, 0, 0, 0, 0, 97] ++
  [0x50, 0x4b, 5, 6, 0, 0, 0, 0, 1, 0, 1, 0, 47, 0, 0, 0, 33, 0, 0, 0, 0, 0]

def emptyDisk : FileSystem (List Char) Byte := fun place =>
  if place = [] then some .directory else none

def noInflate (_ : List Byte) (_ : Nat) : Except String (List Byte) := .error "not deflated"

theorem extraction_bounded_iff_declared :
    @Bounded replacement noInflate [] (storedArchive 2) "/d" emptyDisk (some 2) := by
  have hfree : LinkFree emptyDisk (emptyDisk.locate (resolve [] "/d")) := by
    intro place _ target hlink
    unfold emptyDisk at hlink
    split at hlink
    · cases hlink
    · cases hlink
  have hentries : @readZipEntries replacement (storedArchive 2) =
      .ok [⟨"a", false, none, 0, 2, 2, 0⟩] := by decide +kernel
  have hsizes : @SizesDeclared replacement noInflate (storedArchive 2) := by
    intro entries h entry hmem _
    rw [hentries] at h
    cases h
    rw [List.mem_singleton.mp hmem]
    exact ⟨fun _ => Nat.le_refl 2, fun hdeflated => absurd hdeflated (by decide)⟩
  exact (@extraction_bounded_iff replacement noInflate [] (storedArchive 2) "/d" emptyDisk
    (fun raw length bytes h => by cases h) rfl hfree).2 hsizes (some 2)

/-- **Two bytes are written with a limit of one**: the file declares nothing. -/
theorem limit_passed_by_stored :
    ¬@Bounded replacement noInflate [] (storedArchive 0) "/d" emptyDisk (some 1) := by
  intro h
  have hwritten : totalWritten (stateOf (@extraction replacement noInflate [] (storedArchive 0)
      "/d" emptyDisk (some 1))).writes = 2 := by decide
  have htotal := @Bounded.total replacement _ _ _ _ _ _ h
  rw [hwritten] at htotal
  exact absurd htotal (by decide)

end AgenticGit.Repository
