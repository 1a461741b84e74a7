import Mathlib.Data.List.Basic
import Mathlib.Tactic.Common

/- A file system: what is at a location, and the calls that make directories and write files.

   A path is walked from the root; wherever a symbolic link is met, the walk goes on where
   the link leads. A link is kept with the location it leads to, all further links of its
   own target resolved.

   What is proved:
     1. `locate_inside` — below a location that has no links below it, a path leads where it
        says.
     2. `mkdirs_grows`, `writeFile_grows` — the calls leave directories and links as they
        are, so whatever was reached before is reached after (`Grown.locate`,
        `Standing.grown`).
     3. `mkdirsFrom_inside` — directories are made below only. -/
namespace AgenticGit.FileTree

universe u
variable {ν : Type u}

/-- Where something is: the names on the way from the root. -/
abbrev Location (ν : Type u) := List ν

inductive Node (ν : Type u) (β : Type u) where
  | directory
  | file (bytes : List β) (mode : Option Nat)
  | link (target : Location ν)
  deriving DecidableEq, Repr

variable {β : Type u}

abbrev FileSystem (ν β : Type u) := Location ν → Option (Node ν β)

inductive FileError where
  | notDirectory | isDirectory | notFound | tooManyLinks
  deriving DecidableEq, Repr

namespace FileSystem

/-- Where a link leads; anything else is where it is. -/
def follow (fs : FileSystem ν β) (place : Location ν) : Location ν :=
  match fs place with
  | some (.link target) => target
  | _ => place

/-- The walk from a location along the names. -/
def locateFrom (fs : FileSystem ν β) (place : Location ν) (path : List ν) : Location ν :=
  path.foldl (fun place name => fs.follow (place ++ [name])) place

def locate (fs : FileSystem ν β) (path : List ν) : Location ν := fs.locateFrom [] path

end FileSystem

open FileSystem

/-! ## What grows -/

/-- Directories and links stay, and no link comes to be. -/
structure Grown (fs fs' : FileSystem ν β) : Prop where
  directory : ∀ {place}, fs place = some .directory → fs' place = some .directory
  link : ∀ {place target}, fs place = some (.link target) ↔ fs' place = some (.link target)

theorem Grown.refl (fs : FileSystem ν β) : Grown fs fs := ⟨id, Iff.rfl⟩

theorem Grown.trans {fs₁ fs₂ fs₃ : FileSystem ν β} (h : Grown fs₁ fs₂) (h' : Grown fs₂ fs₃) :
    Grown fs₁ fs₃ :=
  ⟨fun hplace => h'.directory (h.directory hplace), h.link.trans h'.link⟩

theorem Grown.follow {fs fs' : FileSystem ν β} (h : Grown fs fs') (place : Location ν) :
    fs'.follow place = fs.follow place := by
  unfold FileSystem.follow
  cases hplace : fs place with
  | none =>
    cases hplace' : fs' place with
    | none => rfl
    | some node =>
      cases node with
      | directory | file => rfl
      | link target =>
        rw [h.link.mpr hplace'] at hplace
        cases hplace
  | some node =>
    cases node with
    | link target => rw [h.link.mp hplace]
    | directory => rw [h.directory hplace]
    | file bytes mode =>
      cases hplace' : fs' place with
      | none => rfl
      | some node =>
        cases node with
        | directory | file => rfl
        | link target =>
          rw [h.link.mpr hplace'] at hplace
          cases hplace

theorem Grown.locateFrom {fs fs' : FileSystem ν β} (h : Grown fs fs') (place : Location ν)
    (path : List ν) : fs'.locateFrom place path = fs.locateFrom place path := by
  induction path generalizing place with
  | nil => rfl
  | cons name path ih =>
    rw [FileSystem.locateFrom, List.foldl_cons, h.follow]
    exact ih _

theorem Grown.locate {fs fs' : FileSystem ν β} (h : Grown fs fs') (path : List ν) :
    fs'.locate path = fs.locate path := h.locateFrom [] path

/-! ## What stands -/

def Standing (fs : FileSystem ν β) (place : Location ν) : List ν → Prop
  | [] => True
  | name :: rest =>
    fs (fs.follow (place ++ [name])) = some .directory ∧
      Standing fs (fs.follow (place ++ [name])) rest

variable {path : List ν} {root : Location ν}

theorem Standing.grown {fs fs' : FileSystem ν β} {place : Location ν} (h : Standing fs place path)
    (hgrown : Grown fs fs') : Standing fs' place path := by
  induction path generalizing place with
  | nil => trivial
  | cons name path ih =>
    refine ⟨?_, ?_⟩
    · rw [hgrown.follow]
      exact hgrown.directory h.1
    · rw [hgrown.follow]
      exact ih h.2

theorem Standing.front {fs : FileSystem ν β} {place : Location ν} {front path : List ν}
    (h : Standing fs place path) (hfront : front <+: path) : Standing fs place front := by
  induction front generalizing place path with
  | nil => trivial
  | cons name front ih =>
    obtain ⟨rest, rfl⟩ := hfront
    exact ⟨h.1, ih h.2 (List.prefix_append front rest)⟩

theorem Standing.locateFrom {fs : FileSystem ν β} {place : Location ν} (h : Standing fs place path)
    (hplace : fs place = some .directory) : fs (fs.locateFrom place path) = some .directory := by
  induction path generalizing place with
  | nil => exact hplace
  | cons name path ih => exact ih h.2 h.1

/-! ## What is below -/

def Inside (root place : Location ν) : Prop := ∃ name rest, place = root ++ name :: rest

def LinkFree (fs : FileSystem ν β) (root : Location ν) : Prop :=
  ∀ place, Inside root place → ∀ target, fs place ≠ some (.link target)

theorem LinkFree.grown {fs fs' : FileSystem ν β} (h : LinkFree fs root) (hgrown : Grown fs fs') :
    LinkFree fs' root :=
  fun place hplace target hlink => h place hplace target (hgrown.link.mpr hlink)

theorem inside_snoc (root rest : Location ν) (name : ν) : Inside root (root ++ rest ++ [name]) := by
  cases rest with
  | nil => exact ⟨name, [], by rw [List.append_nil]⟩
  | cons first rest => exact ⟨first, rest ++ [name], by rw [List.append_assoc]; rfl⟩

theorem LinkFree.follow {fs : FileSystem ν β} {root place : Location ν} (h : LinkFree fs root)
    (hplace : Inside root place) : fs.follow place = place := by
  unfold FileSystem.follow
  split
  · rename_i target hlink
    exact absurd hlink (h place hplace target)
  · rfl

/-- **A path leads where it says**, below a location without links below it. -/
theorem locateFrom_inside {fs : FileSystem ν β} (h : LinkFree fs root) (rest path : List ν) :
    fs.locateFrom (root ++ rest) path = root ++ (rest ++ path) := by
  induction path generalizing rest with
  | nil => rw [List.append_nil]; rfl
  | cons name path ih =>
    rw [FileSystem.locateFrom, List.foldl_cons, h.follow (inside_snoc root rest name)]
    have htail := ih (rest ++ [name])
    rw [← List.append_assoc, List.append_assoc rest, List.singleton_append] at htail
    exact htail

theorem locate_append (fs : FileSystem ν β) (path rest : List ν) :
    fs.locate (path ++ rest) = fs.locateFrom (fs.locate path) rest := List.foldl_append

theorem locate_inside {fs : FileSystem ν β} (h : LinkFree fs (fs.locate path)) (rest : List ν) :
    fs.locate (path ++ rest) = fs.locate path ++ rest := by
  have hrest := locateFrom_inside h [] rest
  rw [List.append_nil, List.nil_append] at hrest
  rw [locate_append, hrest]

/-! ## Calls -/

section Calls
variable [DecidableEq ν]

namespace FileSystem

def set (fs : FileSystem ν β) (place : Location ν) (node : Node ν β) : FileSystem ν β :=
  fun other => if other = place then some node else fs other

/-- `mkdir(path, { recursive: true })`, from a location on. What is missing has nothing
below it, so a failure comes before anything is made. -/
def mkdirsFrom (fs : FileSystem ν β) (place : Location ν) :
    List ν → Except FileError (FileSystem ν β)
  | [] => .ok fs
  | name :: rest =>
    let next := fs.follow (place ++ [name])
    match fs next with
    | none => mkdirsFrom (fs.set next .directory) next rest
    | some .directory => mkdirsFrom fs next rest
    | some _ => .error .notDirectory

def mkdirs (fs : FileSystem ν β) (path : List ν) : Except FileError (FileSystem ν β) :=
  fs.mkdirsFrom [] path

/-- `writeFile(path, bytes)`. A file that is there keeps its mode. -/
def writeFile (fs : FileSystem ν β) (path : List ν) (bytes : List β) :
    Except FileError (FileSystem ν β) :=
  let place := fs.locate path
  match fs place with
  | some (.file _ mode) => .ok (fs.set place (.file bytes mode))
  | some .directory => .error .isDirectory
  | some (.link _) => .error .tooManyLinks
  | none =>
    match fs (fs.locate path.dropLast) with
    | some .directory => .ok (fs.set place (.file bytes none))
    | _ => .error .notFound

/-- `chmod(path, mode)`, of a file. -/
def chmod (fs : FileSystem ν β) (path : List ν) (mode : Nat) : FileSystem ν β :=
  let place := fs.locate path
  match fs place with
  | some (.file bytes _) => fs.set place (.file bytes (some mode))
  | _ => fs

end FileSystem

theorem set_self (fs : FileSystem ν β) (place : Location ν) (node : Node ν β) :
    fs.set place node place = some node := if_pos rfl

theorem set_other (fs : FileSystem ν β) {place other : Location ν} (node : Node ν β)
    (h : other ≠ place) : fs.set place node other = fs other := if_neg h

variable {place : Location ν} {fs fs' : FileSystem ν β} {path : List ν}

theorem grown_set {fs : FileSystem ν β} {node : Node ν β}
    (hdirectory : fs place ≠ some .directory ∨ node = .directory)
    (hlink : ∀ target, fs place ≠ some (.link target)) (hnode : ∀ target, node ≠ .link target) :
    Grown fs (fs.set place node) := by
  refine ⟨fun {other} hother => ?_, fun {other target} => ?_⟩
  · by_cases heq : other = place
    · subst heq
      rw [set_self]
      rcases hdirectory with hne | rfl
      · exact absurd hother hne
      · rfl
    · rwa [set_other fs node heq]
  · by_cases heq : other = place
    · subst heq
      rw [set_self]
      exact ⟨fun h => absurd h (hlink target), fun h => absurd (Option.some.inj h) (hnode target)⟩
    · rw [set_other fs node heq]

theorem mkdirsFrom_grows (h : fs.mkdirsFrom place path = .ok fs') : Grown fs fs' := by
  induction path generalizing fs place with
  | nil =>
    cases h
    exact .refl _
  | cons name path ih =>
    simp only [mkdirsFrom] at h
    split at h
    · rename_i hnone
      have hset : Grown fs (fs.set (fs.follow (place ++ [name])) .directory) :=
        grown_set (.inr rfl) (by simp [hnone]) (by simp)
      exact hset.trans (ih h)
    · exact ih h
    · cases h

theorem mkdirs_grows (h : fs.mkdirs path = .ok fs') : Grown fs fs' := mkdirsFrom_grows h

theorem writeFile_cases {bytes : List β} (h : fs.writeFile path bytes = .ok fs') :
    ∃ mode, fs' = fs.set (fs.locate path) (.file bytes mode) ∧
      (fs (fs.locate path) = none ∨ ∃ old, fs (fs.locate path) = some (.file old mode)) := by
  simp only [writeFile] at h
  split at h
  · rename_i old mode hplace
    cases h
    exact ⟨mode, rfl, .inr ⟨old, hplace⟩⟩
  · cases h
  · cases h
  · rename_i hplace
    split at h
    · cases h
      exact ⟨none, rfl, .inl hplace⟩
    · cases h

theorem writeFile_grows {bytes : List β} (h : fs.writeFile path bytes = .ok fs') :
    Grown fs fs' := by
  obtain ⟨mode, rfl, hnone | ⟨old, hold⟩⟩ := writeFile_cases h
  · exact grown_set (.inl (by simp [hnone])) (by simp [hnone]) (by simp)
  · exact grown_set (.inl (by simp [hold])) (by simp [hold]) (by simp)

theorem chmod_cases (fs : FileSystem ν β) (path : List ν) (mode : Nat) :
    fs.chmod path mode = fs ∨ ∃ bytes old, fs (fs.locate path) = some (.file bytes old) ∧
      fs.chmod path mode = fs.set (fs.locate path) (.file bytes (some mode)) := by
  simp only [chmod]
  split
  · rename_i bytes old hplace
    exact .inr ⟨bytes, old, hplace, rfl⟩
  · exact .inl rfl

theorem chmod_grows (fs : FileSystem ν β) (path : List ν) (mode : Nat) :
    Grown fs (fs.chmod path mode) := by
  rcases chmod_cases fs path mode with heq | ⟨bytes, old, hold, heq⟩
  · rw [heq]
    exact .refl fs
  · rw [heq]
    exact grown_set (.inl (by simp [hold])) (by simp [hold]) (by simp)

/-- **What was made stands.** -/
theorem mkdirsFrom_standing (h : fs.mkdirsFrom place path = .ok fs') : Standing fs' place path := by
  induction path generalizing fs place with
  | nil => trivial
  | cons name path ih =>
    have hgrown := mkdirsFrom_grows h
    simp only [mkdirsFrom] at h
    have hnext : fs' (fs.follow (place ++ [name])) = some .directory := by
      split at h
      · exact (mkdirsFrom_grows h).directory (set_self _ _ _)
      · rename_i hplace
        exact hgrown.directory hplace
      · cases h
    refine ⟨by rw [hgrown.follow]; exact hnext, ?_⟩
    rw [hgrown.follow]
    split at h
    · exact ih h
    · exact ih h
    · cases h

theorem mkdirsFrom_append {fs : FileSystem ν β} (h : Standing fs place path) (rest : List ν) :
    fs.mkdirsFrom place (path ++ rest) = fs.mkdirsFrom (fs.locateFrom place path) rest := by
  induction path generalizing place with
  | nil => rfl
  | cons name path ih =>
    rw [List.cons_append, mkdirsFrom]
    simp only [h.1]
    exact ih h.2

theorem Standing.mkdirsFrom {fs : FileSystem ν β} {front path : List ν} (h : Standing fs place path)
    (hfront : front <+: path) : fs.mkdirsFrom place front = .ok fs := by
  have hmade := mkdirsFrom_append (h.front hfront) []
  rwa [List.append_nil, FileSystem.mkdirsFrom] at hmade

/-- **Directories are made below only.** -/
theorem mkdirsFrom_inside {root : Location ν} (h : LinkFree fs root) {rest path : List ν}
    (hmade : fs.mkdirsFrom (root ++ rest) path = .ok fs') (hplace : ¬Inside root place) :
    fs' place = fs place := by
  induction path generalizing fs rest with
  | nil =>
    cases hmade
    rfl
  | cons name path ih =>
    simp only [mkdirsFrom, h.follow (inside_snoc root rest name)] at hmade
    rw [List.append_assoc] at hmade
    split at hmade
    · rename_i hnone
      have hset : Grown fs (fs.set (root ++ (rest ++ [name])) .directory) :=
        grown_set (.inr rfl) (by simp [hnone]) (by simp)
      have hne : place ≠ root ++ (rest ++ [name]) := by
        rintro rfl
        rw [← List.append_assoc] at hplace
        exact hplace (inside_snoc root rest name)
      rw [ih (h.grown hset) hmade, set_other fs _ hne]
    · exact ih h hmade
    · cases hmade

end Calls

end AgenticGit.FileTree
