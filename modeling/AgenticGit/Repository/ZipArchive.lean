import Mathlib.Data.List.SplitBy
import AgenticGit.Lib.Buffers
import AgenticGit.Shared.Paths

/- Reading a ZIP: the central directory, an entry's bytes and where it may be written, as
   `zip-archive.ts` has them.

   Correspondence (TypeScript ↔ Lean):
     `throw new ZipArchiveError(message)`            ↔ `ZipError.archive`
     a `RangeError` of `readUInt32LE` and the like   ↔ `ZipError.outOfRange`
     `readUInt16`, `readUInt32`                      ↔ `readUInt` of two and of four bytes
     `archive.readUInt32LE(at)`, `extra.readUInt16LE(at)` ↔ `readRaw`
     `for (let at = ..; at >= earliest; at -= 1)`    ↔ `findEnd`
     the `while` of `zip64Sizes`, its `next()`       ↔ `zip64Sizes`, `nextField`
     the `for` of `readZipEntries`                   ↔ `readEntries`
     `inflateRawSync`                                ↔ a parameter
     an absolute path                                ↔ its segments, `ResolvedPath`
     `path.resolve(destination)`                     ↔ `resolve`, from the working directory

   What is proved: no read is outside the buffer, whatever the archive says
   (`readZipEntries_inside`, `entryBytes_inside`), and an entry is written below the
   destination or at it (`zipEntryTargetPath_below`). -/
namespace AgenticGit.Repository
open AgenticGit.Buffers AgenticGit.Runtime AgenticGit.Shared

inductive ZipError where
  | archive (message : String)
  | outOfRange
  deriving DecidableEq, Repr

def LOCAL_HEADER : Nat := 0x04034b50
def CENTRAL_ENTRY : Nat := 0x02014b50
def END_OF_CENTRAL_DIRECTORY : Nat := 0x06054b50
def ZIP64_END_OF_CENTRAL_DIRECTORY : Nat := 0x06064b50
def ZIP64_LOCATOR : Nat := 0x07064b50

def STORED : Nat := 0
def DEFLATED : Nat := 8

def MAX_ARCHIVE_ENTRIES : Nat := 200000
def MAX_ARCHIVE_EXTRACTED_BYTES : Nat := 2 * 1024 * 1024 * 1024

/-- `Number.MAX_SAFE_INTEGER`. -/
def MAX_SAFE_INTEGER : Nat := 9007199254740991

structure ZipEntry where
  name : String
  isDirectory : Bool
  mode : Option Nat
  compressionMethod : Nat
  compressedSize : Nat
  uncompressedSize : Nat
  localHeaderOffset : Nat
  deriving DecidableEq, Repr

/-- `if (condition) { throw new ZipArchiveError(message) }`. -/
def refuse (condition : Prop) [Decidable condition] (message : String) : Except ZipError Unit :=
  if condition then .error (.archive message) else .ok ()

/-! ## Numbers -/

def readRaw (count : Nat) (buffer : List Byte) (place : Nat) : Except ZipError Nat :=
  match readLE? count buffer place with
  | some value => .ok value
  | none => .error .outOfRange

def readUInt (count : Nat) (archive : List Byte) (offset : Nat) : Except ZipError Nat := do
  refuse (offset + count > archive.length) "That ZIP file is truncated"
  readRaw count archive offset

def readUInt64 (archive : List Byte) (offset : Nat) : Except ZipError Nat := do
  refuse (offset + 8 > archive.length) "That ZIP file is truncated"
  let value ← readRaw 8 archive offset
  refuse (value > MAX_SAFE_INTEGER) "That ZIP file declares an impossible size"
  return value

/-! ## The central directory -/

/-- The search for the end record, backwards from a place. -/
def findEnd (archive : List Byte) (earliest : Nat) : Nat → Except ZipError (Option Nat)
  | 0 =>
    if 0 < earliest then .ok none
    else do
      let signature ← readRaw 4 archive 0
      if signature = END_OF_CENTRAL_DIRECTORY then .ok (some 0) else .ok none
  | place + 1 =>
    if place + 1 < earliest then .ok none
    else do
      let signature ← readRaw 4 archive (place + 1)
      if signature = END_OF_CENTRAL_DIRECTORY then .ok (some (place + 1))
      else findEnd archive earliest place

/-- The record of the real numbers, where the 32-bit ones are saturated. -/
def zip64Directory (archive : List Byte) (end_ : Nat) : Except ZipError (Nat × Nat) := do
  refuse (end_ < 20) "That ZIP file is missing its Zip64 index"
  let locator := end_ - 20
  let signature ← readUInt 4 archive locator
  refuse (signature ≠ ZIP64_LOCATOR) "That ZIP file is missing its Zip64 index"
  let record ← readUInt64 archive (locator + 8)
  let signature ← readUInt 4 archive record
  refuse (signature ≠ ZIP64_END_OF_CENTRAL_DIRECTORY) "That ZIP file has a damaged Zip64 index"
  let entries ← readUInt64 archive (record + 32)
  let offset ← readUInt64 archive (record + 48)
  return (offset, entries)

/-- Where the central directory starts, and how many entries it holds. -/
def locateCentralDirectory (archive : List Byte) : Except ZipError (Nat × Nat) := do
  let smallest := 22
  refuse (archive.length < smallest) "That file is too small to be a ZIP archive"
  let earliest := archive.length - smallest - 0xffff
  match ← findEnd archive earliest (archive.length - smallest) with
  | none => throw (.archive "That file is not a ZIP archive")
  | some end_ =>
    let entries ← readUInt 2 archive (end_ + 10)
    let offset ← readUInt 4 archive (end_ + 16)
    if entries = 0xffff ∨ offset = 0xffffffff then zip64Directory archive end_
    else return (offset, entries)

structure Zip64Wanted where
  uncompressed : Bool
  compressed : Bool
  offset : Bool

structure Zip64Sizes where
  uncompressedSize : Option Nat
  compressedSize : Option Nat
  offset : Option Nat

/-- The next field of the body, when it is wanted, and the cursor behind it. -/
def nextField (body : List Byte) (cursor : Nat) (wanted : Bool) :
    Except ZipError (Option Nat × Nat) :=
  if !wanted then .ok (none, cursor)
  else if cursor + 8 > body.length then .ok (none, cursor)
  else do
    let value ← readUInt64 body cursor
    return (some value, cursor + 8)

def zip64Sizes (extra : List Byte) (wanted : Zip64Wanted) (place : Nat) :
    Except ZipError Zip64Sizes :=
  if _hfits : place + 4 ≤ extra.length then do
    let id ← readRaw 2 extra place
    let size ← readRaw 2 extra (place + 2)
    if place + 4 + size > extra.length then return ⟨none, none, none⟩
    else if id = 0x0001 then
      let body := subarray extra (place + 4) (place + 4 + size)
      let (uncompressedSize, cursor) ← nextField body 0 wanted.uncompressed
      let (compressedSize, cursor) ← nextField body cursor wanted.compressed
      let (offset, _) ← nextField body cursor wanted.offset
      return ⟨uncompressedSize, compressedSize, offset⟩
    else zip64Sizes extra wanted (place + (4 + size))
  else .ok ⟨none, none, none⟩
termination_by extra.length - place

/-- The sizes of an entry, restated where they did not fit. -/
def entrySizes (extra : List Byte) (compressedSize uncompressedSize localHeaderOffset : Nat) :
    Except ZipError (Nat × Nat × Nat) :=
  if compressedSize = 0xffffffff ∨ uncompressedSize = 0xffffffff ∨
      localHeaderOffset = 0xffffffff then do
    let wide ← zip64Sizes extra ⟨uncompressedSize = 0xffffffff, compressedSize = 0xffffffff,
      localHeaderOffset = 0xffffffff⟩ 0
    return (wide.compressedSize.getD compressedSize, wide.uncompressedSize.getD uncompressedSize,
      wide.offset.getD localHeaderOffset)
  else .ok (compressedSize, uncompressedSize, localHeaderOffset)

section Index
variable [LossyUtf8]

/-- One entry of the index, and where the next begins. -/
def readEntry (archive : List Byte) (place : Nat) : Except ZipError (ZipEntry × Nat) := do
  let signature ← readUInt 4 archive place
  refuse (signature ≠ CENTRAL_ENTRY) "That ZIP file has a damaged index"
  let madeBy ← readUInt 2 archive (place + 4)
  let flags ← readUInt 2 archive (place + 8)
  let compressionMethod ← readUInt 2 archive (place + 10)
  let nameLength ← readUInt 2 archive (place + 28)
  let extraLength ← readUInt 2 archive (place + 30)
  let commentLength ← readUInt 2 archive (place + 32)
  let externalAttributes ← readUInt 4 archive (place + 38)
  let compressedSize ← readUInt 4 archive (place + 20)
  let uncompressedSize ← readUInt 4 archive (place + 24)
  let localHeaderOffset ← readUInt 4 archive (place + 42)
  let nameStart := place + 46
  let nameBytes := subarray archive nameStart (nameStart + nameLength)
  refuse (nameBytes.length ≠ nameLength) "That ZIP file is truncated"
  let name := decodeUtf8 nameBytes
  let extra := subarray archive (nameStart + nameLength) (nameStart + nameLength + extraLength)
  let (compressedSize, uncompressedSize, localHeaderOffset) ←
    entrySizes extra compressedSize uncompressedSize localHeaderOffset
  refuse (flags &&& 0x0001 ≠ 0) "That ZIP file is encrypted"
  let mode := if madeBy >>> 8 = 3 then some ((externalAttributes >>> 16) &&& 0xffff) else none
  let isDirectory := name.toList.getLast? = some '/' ∨ name.toList.getLast? = some '\\'
  return (⟨name, isDirectory, mode, compressionMethod, compressedSize, uncompressedSize,
    localHeaderOffset⟩, nameStart + nameLength + extraLength + commentLength)

/-- The `declared` entries from a place on. -/
def readEntries (archive : List Byte) : Nat → Nat → Except ZipError (List ZipEntry)
  | 0, _ => .ok []
  | declared + 1, place => do
    let (entry, next) ← readEntry archive place
    let entries ← readEntries archive declared next
    return entry :: entries

def readZipEntries (archive : List Byte) : Except ZipError (List ZipEntry) := do
  let (offset, declared) ← locateCentralDirectory archive
  refuse (declared > MAX_ARCHIVE_ENTRIES)
    ("That ZIP holds more than " ++ toString MAX_ARCHIVE_ENTRIES ++ " files")
  readEntries archive declared offset

end Index

/-! ## The bytes of an entry -/

def entryBytes (inflateRawSync : List Byte → Nat → Except String (List Byte))
    (archive : List Byte) (entry : ZipEntry) : Except ZipError (List Byte) := do
  let header := entry.localHeaderOffset
  let signature ← readUInt 4 archive header
  refuse (signature ≠ LOCAL_HEADER) ("That ZIP file is damaged around " ++ entry.name)
  let nameLength ← readUInt 2 archive (header + 26)
  let extraLength ← readUInt 2 archive (header + 28)
  let start := header + 30 + nameLength + extraLength
  let stop := start + entry.compressedSize
  refuse (stop > archive.length) "That ZIP file is truncated"
  let raw := subarray archive start stop
  if entry.compressionMethod = STORED then return raw
  else if entry.compressionMethod ≠ DEFLATED then
    throw (.archive (entry.name ++ " uses a compression this reader does not know (method " ++
      toString entry.compressionMethod ++ ")"))
  else
    match inflateRawSync raw (max entry.uncompressedSize 1) with
    | .ok bytes => return bytes
    | .error message =>
      throw (.archive (entry.name ++ " could not be decompressed: " ++ message))

/-! ## Where an entry may be written -/

abbrev ResolvedPath := List (List Char)

def ResolvedPath.text (path : ResolvedPath) : List Char := '/' :: ['/'].intercalate path

def resolveSegment (path : ResolvedPath) (segment : List Char) : ResolvedPath :=
  if segment = [] ∨ segment = ['.'] then path
  else if segment = ['.', '.'] then path.dropLast
  else path ++ [segment]

/-- `path.resolve(destination)`. -/
def resolve (cwd : ResolvedPath) (destination : String) : ResolvedPath :=
  let segments := destination.toList.splitOn '/'
  if destination.toList.head? = some '/' then segments.foldl resolveSegment []
  else segments.foldl resolveSegment cwd

/-- `/^[A-Za-z]:/u.test(normalized)`. -/
def beginsWithDrive : List Char → Bool
  | letter :: ':' :: _ => letter.isAlpha
  | _ => false

/-- Where one entry may be written, or nothing if it may not be written at all. -/
def zipEntryTargetPath (root : ResolvedPath) (name : String) : Option ResolvedPath :=
  let normalized := forwardSlashes name
  if normalized = [] ∨ normalized.head? = some '/' ∨ beginsWithDrive normalized = true ∨
      '\x00' ∈ normalized then none
  else
    let segments := (normalized.splitOn '/').filter (· ≠ [])
    if segments.length = 0 ∨ segments.any (· = ['.', '.']) = true then none
    else
      let target := segments.foldl resolveSegment root
      if target.text ≠ root.text ∧ ¬(root.text ++ ['/']) <+: target.text then none
      else some target

theorem foldl_resolveSegment (root : ResolvedPath) {segments : List (List Char)}
    (h : ['.', '.'] ∉ segments) : root <+: segments.foldl resolveSegment root := by
  induction segments generalizing root with
  | nil => exact List.prefix_refl root
  | cons segment segments ih =>
    obtain ⟨hne, htail⟩ := not_or.mp (List.mem_cons.not.mp h)
    have hstep : root <+: resolveSegment root segment := by
      unfold resolveSegment
      split
      · exact List.prefix_refl root
      · rw [if_neg (fun he => hne he.symm)]
        exact List.prefix_append root _
    exact hstep.trans (ih _ htail)

/-- **An entry is written below the destination**, or at it. -/
theorem zipEntryTargetPath_below {root target : ResolvedPath} {name : String}
    (h : zipEntryTargetPath root name = some target) : root <+: target := by
  simp only [zipEntryTargetPath] at h
  split at h
  · cases h
  · split at h
    · cases h
    · rename_i hsegments
      split at h
      · cases h
      · cases h
        refine foldl_resolveSegment root fun hmem => hsegments (.inr ?_)
        exact List.any_eq_true.mpr ⟨_, hmem, decide_eq_true rfl⟩

/-! ## No read is outside the buffer -/

def InBuffer {α : Type} (result : Except ZipError α) : Prop := result ≠ .error .outOfRange

section
variable {α β : Type}

theorem inBuffer_ok (a : α) : InBuffer (.ok a) := fun h => by cases h

theorem inBuffer_throw (message : String) :
    InBuffer (throw (.archive message) : Except ZipError α) := fun h => by cases h

theorem inBuffer_bind {x : Except ZipError α} {f : α → Except ZipError β} (hx : InBuffer x)
    (hf : ∀ a, x = .ok a → InBuffer (f a)) : InBuffer (x >>= f) := by
  cases hresult : x with
  | error e =>
    rw [hresult] at hx
    intro h
    cases h
    exact hx rfl
  | ok a => exact hf a hresult

theorem inBuffer_refuse (condition : Prop) [Decidable condition] (message : String) :
    InBuffer (refuse condition message) := by
  unfold refuse
  split
  · exact inBuffer_throw message
  · exact inBuffer_ok ()

theorem refuse_ok {condition : Prop} [Decidable condition] {message : String} {u : Unit}
    (h : refuse condition message = .ok u) : ¬condition := by
  intro hcondition
  rw [refuse, if_pos hcondition] at h
  cases h

theorem inBuffer_refuse_bind {condition : Prop} [Decidable condition] {message : String}
    {f : Unit → Except ZipError β} (hf : ¬condition → InBuffer (f ())) :
    InBuffer (refuse condition message >>= f) :=
  inBuffer_bind (inBuffer_refuse condition message) fun _ h => hf (refuse_ok h)

theorem inBuffer_readRaw {count place : Nat} {buffer : List Byte}
    (h : place + count ≤ buffer.length) : InBuffer (readRaw count buffer place) := by
  rw [readRaw, readLE?, if_pos h]
  exact inBuffer_ok _

theorem inBuffer_readUInt (count : Nat) (archive : List Byte) (offset : Nat) :
    InBuffer (readUInt count archive offset) :=
  inBuffer_refuse_bind fun h => inBuffer_readRaw (Nat.not_lt.mp h)

theorem inBuffer_readUInt64 (archive : List Byte) (offset : Nat) :
    InBuffer (readUInt64 archive offset) := by
  refine inBuffer_refuse_bind fun h => ?_
  refine inBuffer_bind (inBuffer_readRaw (Nat.not_lt.mp h)) fun value _ => ?_
  exact inBuffer_refuse_bind fun _ => inBuffer_ok value

end

theorem inBuffer_findEnd {archive : List Byte} (earliest : Nat) {place : Nat}
    (h : place + 4 ≤ archive.length) : InBuffer (findEnd archive earliest place) := by
  induction place with
  | zero =>
    rw [findEnd]
    split
    · exact inBuffer_ok _
    · refine inBuffer_bind (inBuffer_readRaw h) fun signature _ => ?_
      split
      · exact inBuffer_ok _
      · exact inBuffer_ok _
  | succ place ih =>
    rw [findEnd]
    split
    · exact inBuffer_ok _
    · refine inBuffer_bind (inBuffer_readRaw h) fun signature _ => ?_
      split
      · exact inBuffer_ok _
      · exact ih (by omega)

theorem inBuffer_zip64Directory (archive : List Byte) (end_ : Nat) :
    InBuffer (zip64Directory archive end_) := by
  refine inBuffer_refuse_bind fun _ => ?_
  refine inBuffer_bind (inBuffer_readUInt _ _ _) fun signature _ => ?_
  refine inBuffer_refuse_bind fun _ => ?_
  refine inBuffer_bind (inBuffer_readUInt64 _ _) fun record _ => ?_
  refine inBuffer_bind (inBuffer_readUInt _ _ _) fun signature _ => ?_
  refine inBuffer_refuse_bind fun _ => ?_
  refine inBuffer_bind (inBuffer_readUInt64 _ _) fun entries _ => ?_
  exact inBuffer_bind (inBuffer_readUInt64 _ _) fun offset _ => inBuffer_ok _

theorem inBuffer_locateCentralDirectory (archive : List Byte) :
    InBuffer (locateCentralDirectory archive) := by
  refine inBuffer_refuse_bind fun hsmall => ?_
  refine inBuffer_bind (inBuffer_findEnd _ (by omega)) fun found _ => ?_
  cases found with
  | none => exact inBuffer_throw _
  | some end_ =>
    refine inBuffer_bind (inBuffer_readUInt _ _ _) fun entries _ => ?_
    refine inBuffer_bind (inBuffer_readUInt _ _ _) fun offset _ => ?_
    split
    · exact inBuffer_zip64Directory _ _
    · exact inBuffer_ok _

theorem inBuffer_nextField (body : List Byte) (cursor : Nat) (wanted : Bool) :
    InBuffer (nextField body cursor wanted) := by
  unfold nextField
  split
  · exact inBuffer_ok _
  · split
    · exact inBuffer_ok _
    · exact inBuffer_bind (inBuffer_readUInt64 _ _) fun _ _ => inBuffer_ok _

theorem inBuffer_zip64Sizes (extra : List Byte) (wanted : Zip64Wanted) (place : Nat) :
    InBuffer (zip64Sizes extra wanted place) := by
  induction hn : extra.length - place using Nat.strongRecOn generalizing place with
  | ind n ih =>
    rw [zip64Sizes]
    split
    · rename_i hfits
      refine inBuffer_bind (inBuffer_readRaw (by omega)) fun id _ => ?_
      refine inBuffer_bind (inBuffer_readRaw (by omega)) fun size _ => ?_
      dsimp only
      split
      · exact inBuffer_ok _
      · split
        · refine inBuffer_bind (inBuffer_nextField _ _ _) fun _ _ => ?_
          refine inBuffer_bind (inBuffer_nextField _ _ _) fun _ _ => ?_
          exact inBuffer_bind (inBuffer_nextField _ _ _) fun _ _ => inBuffer_ok _
        · exact ih (extra.length - (place + (4 + size))) (by omega) _ rfl
    · exact inBuffer_ok _

theorem inBuffer_entrySizes (extra : List Byte) (compressed uncompressed header : Nat) :
    InBuffer (entrySizes extra compressed uncompressed header) := by
  unfold entrySizes
  split
  · exact inBuffer_bind (inBuffer_zip64Sizes _ _ _) fun _ _ => inBuffer_ok _
  · exact inBuffer_ok _

/-- **An entry is read inside the buffer.** -/
theorem entryBytes_inside (inflateRawSync : List Byte → Nat → Except String (List Byte))
    (archive : List Byte) (entry : ZipEntry) :
    InBuffer (entryBytes inflateRawSync archive entry) := by
  refine inBuffer_bind (inBuffer_readUInt _ _ _) fun signature _ => ?_
  refine inBuffer_refuse_bind fun _ => ?_
  refine inBuffer_bind (inBuffer_readUInt _ _ _) fun nameLength _ => ?_
  refine inBuffer_bind (inBuffer_readUInt _ _ _) fun extraLength _ => ?_
  refine inBuffer_refuse_bind fun _ => ?_
  dsimp only
  split
  · exact inBuffer_ok _
  · split
    · exact inBuffer_throw _
    · split
      · exact inBuffer_ok _
      · exact inBuffer_throw _

section Index
variable [LossyUtf8]

theorem inBuffer_readEntry (archive : List Byte) (place : Nat) :
    InBuffer (readEntry archive place) := by
  refine inBuffer_bind (inBuffer_readUInt _ _ _) fun signature _ => ?_
  refine inBuffer_refuse_bind fun _ => ?_
  refine inBuffer_bind (inBuffer_readUInt _ _ _) fun madeBy _ => ?_
  refine inBuffer_bind (inBuffer_readUInt _ _ _) fun flags _ => ?_
  refine inBuffer_bind (inBuffer_readUInt _ _ _) fun compressionMethod _ => ?_
  refine inBuffer_bind (inBuffer_readUInt _ _ _) fun nameLength _ => ?_
  refine inBuffer_bind (inBuffer_readUInt _ _ _) fun extraLength _ => ?_
  refine inBuffer_bind (inBuffer_readUInt _ _ _) fun commentLength _ => ?_
  refine inBuffer_bind (inBuffer_readUInt _ _ _) fun externalAttributes _ => ?_
  refine inBuffer_bind (inBuffer_readUInt _ _ _) fun compressedSize _ => ?_
  refine inBuffer_bind (inBuffer_readUInt _ _ _) fun uncompressedSize _ => ?_
  refine inBuffer_bind (inBuffer_readUInt _ _ _) fun localHeaderOffset _ => ?_
  refine inBuffer_refuse_bind fun _ => ?_
  refine inBuffer_bind (inBuffer_entrySizes _ _ _ _) fun sizes _ => ?_
  exact inBuffer_refuse_bind fun _ => inBuffer_ok _

theorem inBuffer_readEntries (archive : List Byte) (declared place : Nat) :
    InBuffer (readEntries archive declared place) := by
  induction declared generalizing place with
  | zero => exact inBuffer_ok _
  | succ declared ih =>
    refine inBuffer_bind (inBuffer_readEntry archive place) fun read _ => ?_
    exact inBuffer_bind (ih read.2) fun entries _ => inBuffer_ok _

/-- **So is the index**, whatever it says. -/
theorem readZipEntries_inside (archive : List Byte) : InBuffer (readZipEntries archive) := by
  refine inBuffer_bind (inBuffer_locateCentralDirectory archive) fun located _ => ?_
  exact inBuffer_refuse_bind fun _ => inBuffer_readEntries _ _ _

/-! ## What the index lists -/

variable {archive : List Byte} {entries : List ZipEntry}

theorem length_readEntries {declared place : Nat}
    (h : readEntries archive declared place = .ok entries) : entries.length = declared := by
  induction declared generalizing place entries with
  | zero =>
    cases h
    rfl
  | succ declared ih =>
    rw [readEntries] at h
    obtain ⟨read, -, h⟩ := except_bind_ok h
    obtain ⟨tail, htail, h⟩ := except_bind_ok h
    cases h
    rw [List.length_cons, ih htail]

/-- **No more entries than the limit.** -/
theorem length_readZipEntries (h : readZipEntries archive = .ok entries) :
    entries.length ≤ MAX_ARCHIVE_ENTRIES := by
  rw [readZipEntries] at h
  obtain ⟨located, -, h⟩ := except_bind_ok h
  obtain ⟨_, hfew, h⟩ := except_bind_ok h
  rw [length_readEntries h]
  exact Nat.not_lt.mp (refuse_ok hfew)

end Index

end AgenticGit.Repository
