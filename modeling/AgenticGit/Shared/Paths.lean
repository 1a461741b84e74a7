import AgenticGit.Lib.Runtime

/- Repository-relative paths: `normalizeRepositoryPath` and
   `uniqueRepositoryPaths` of `shared-types`, and the part of
   `path.posix.normalize` they reach.

   Correspondence (TypeScript ↔ Lean):
     `path.posix.normalize(p)`, p relative and not empty ↔ `posixNormalize`
     `throw new Error("Invalid repository-relative path: ..")` ↔ `PathError.invalid`
     `throw new Error("Path escapes the repository: ..")`      ↔ `PathError.escapes`

   What is proved: a path that was normalized once is either refused the second
   time or left as it is (`normalizeRepositoryPath_idem`). It can be refused:
   `./C:/x` normalizes to `C:/x`, which looks like a Windows drive. -/
namespace AgenticGit.Shared
open AgenticGit.Runtime

inductive PathError where
  | invalid (value : String)
  | escapes (value : String)
  deriving DecidableEq, Repr

/-- One segment of a path, after the segments kept so far, newest first. -/
def pushSegment (kept : List (List Char)) (segment : List Char) : List (List Char) :=
  if segment = [] ∨ segment = ['.'] then kept
  else if segment = ['.', '.'] then
    match kept with
    | [] => [['.', '.']]
    | last :: rest => if last = ['.', '.'] then ['.', '.'] :: kept else rest
  else segment :: kept

/-- The segments `path.posix.normalize` keeps. -/
def keptSegments (path : List Char) : List (List Char) :=
  ((path.splitOn '/').foldl pushSegment []).reverse

/-- `path.posix.normalize`, on a relative path that is not empty. -/
def posixNormalize (path : List Char) : List Char :=
  let body := ['/'].intercalate (keptSegments path)
  let trailingSeparator := path.getLast? = some '/'
  if body = [] then (if trailingSeparator then ['.', '/'] else ['.'])
  else if trailingSeparator then body ++ ['/'] else body

/-- `/^[A-Za-z]:\//u.test(candidate)`. -/
def hasDriveLetter : List Char → Bool
  | letter :: ':' :: '/' :: _ => letter.isAlpha
  | _ => false

/-- `value.replaceAll("\\", "/")`. -/
def forwardSlashes (value : String) : List Char :=
  value.toList.map fun c => if c = '\\' then '/' else c

def normalizeRepositoryPath (value : String) : Except PathError String :=
  let candidate := forwardSlashes value
  if candidate = [] ∨ '\x00' ∈ candidate ∨ candidate.head? = some '/' ∨
      hasDriveLetter candidate = true then
    .error (.invalid value)
  else
    let normalized := posixNormalize candidate
    if normalized = ['.'] ∨ normalized = ['.', '.'] ∨ ['.', '.', '/'] <+: normalized then
      .error (.escapes value)
    else .ok (String.ofList normalized)

/-- `[...new Set(values.map(normalizeRepositoryPath))].sort()`. -/
def uniqueRepositoryPaths (values : List String) : Except PathError (List String) := do
  let paths ← values.mapM normalizeRepositoryPath
  return sortStrings (unique paths)

/-! ## Normalizing again -/

/-- A segment `path.posix.normalize` has nothing to do about. -/
structure Plain (segment : List Char) : Prop where
  chars : ∀ c ∈ segment, c ≠ '/' ∧ c ≠ '\\'
  nonempty : segment ≠ []
  notDot : segment ≠ ['.']

/-- Segments kept newest first: plain, and `..` only where nothing but `..`
comes before. -/
structure Kept (segments : List (List Char)) : Prop where
  plain : ∀ segment ∈ segments, Plain segment
  up : ∀ segment rest, segment :: rest <:+ segments → segment = ['.', '.'] →
    ∀ other ∈ rest, other = ['.', '.']

theorem kept_nil : Kept [] := ⟨by simp, by simp⟩

variable {kept : List (List Char)}

theorem Kept.cons {segment : List Char} (h : Kept kept) (hp : Plain segment)
    (hu : segment = ['.', '.'] → ∀ other ∈ kept, other = ['.', '.']) : Kept (segment :: kept) where
  plain := List.forall_mem_cons.mpr ⟨hp, h.plain⟩
  up other rest hs ho := by
    rcases List.suffix_cons_iff.mp hs with he | hs
    · obtain ⟨rfl, rfl⟩ := List.cons.inj he
      exact hu ho
    · exact h.up other rest hs ho

theorem Kept.tail {segment : List Char} (h : Kept (segment :: kept)) : Kept kept where
  plain other ho := h.plain other (List.mem_cons_of_mem _ ho)
  up other rest hs ho := h.up other rest (hs.trans (List.suffix_cons _ _)) ho

theorem Kept.push (h : Kept kept) {segment : List Char} (hs : ∀ c ∈ segment, c ≠ '/' ∧ c ≠ '\\') :
    Kept (pushSegment kept segment) := by
  unfold pushSegment
  split
  · exact h
  · rename_i hne
    have hp : Plain segment := ⟨hs, fun he => hne (.inl he), fun he => hne (.inr he)⟩
    split
    · rename_i hu
      match kept, h with
      | [], h => exact h.cons (hu ▸ hp) (by simp)
      | last :: rest, h =>
        dsimp only
        split
        · rename_i hl
          refine h.cons (hu ▸ hp) fun _ other ho => ?_
          rcases List.mem_cons.mp ho with rfl | ho
          · exact hl
          · exact h.up last rest (List.suffix_refl _) hl other ho
        · exact h.tail
    · rename_i hu
      exact h.cons hp fun he => (hu he).elim

theorem Kept.foldl (h : Kept kept) {segments : List (List Char)}
    (hs : ∀ segment ∈ segments, ∀ c ∈ segment, c ≠ '/' ∧ c ≠ '\\') :
    Kept (segments.foldl pushSegment kept) := by
  induction segments generalizing kept with
  | nil => exact h
  | cons segment segments ih =>
    rw [List.forall_mem_cons] at hs
    exact ih (h.push hs.1) hs.2

theorem mem_splitOn_chars {path segment : List Char} (h : segment ∈ path.splitOn '/') :
    ∀ c ∈ segment, c ≠ '/' ∧ c ∈ path := by
  induction path generalizing segment with
  | nil => simp_all
  | cons d path ih =>
    rw [List.splitOn_cons_eq_if_modifyHead] at h
    split at h
    · rcases List.mem_cons.mp h with rfl | h
      · simp
      · intro c hc
        exact (ih h c hc).imp_right (List.mem_cons_of_mem _)
    · rename_i hd
      rcases hs : path.splitOn '/' with _ | ⟨first, rest⟩
      · exact (List.splitOn_ne_nil _ _ hs).elim
      · rw [hs] at h ih
        rcases List.mem_cons.mp h with rfl | h
        · intro c hc
          rcases List.mem_cons.mp hc with rfl | hc
          · exact ⟨by simpa using hd, List.mem_cons_self⟩
          · exact (ih List.mem_cons_self c hc).imp_right (List.mem_cons_of_mem _)
        · intro c hc
          exact (ih (List.mem_cons_of_mem _ h) c hc).imp_right (List.mem_cons_of_mem _)

theorem keptSegments_kept {path : List Char} (h : '\\' ∉ path) :
    Kept (keptSegments path).reverse := by
  rw [keptSegments, List.reverse_reverse]
  refine kept_nil.foldl fun segment hs c hc => ?_
  obtain ⟨hne, hm⟩ := mem_splitOn_chars hs c hc
  exact ⟨hne, fun he => h (he ▸ hm)⟩

theorem Kept.head_up {segments : List (List Char)} (h : Kept segments.reverse)
    (hu : ['.', '.'] ∈ segments) : ∃ rest, segments = ['.', '.'] :: rest := by
  rw [← List.mem_reverse] at hu
  obtain ⟨newer, older, he⟩ := List.append_of_mem hu
  have hall := h.up ['.', '.'] older (he ▸ List.suffix_append _ _) rfl
  have hs : segments = older.reverse ++ ['.', '.'] :: newer.reverse := by
    rw [← List.reverse_reverse segments, he]
    simp
  rcases ho : older.reverse with _ | ⟨first, rest⟩
  · exact ⟨_, by rw [hs, ho]; rfl⟩
  · have hf := hall first (List.mem_reverse.mp (ho ▸ List.mem_cons_self))
    exact ⟨_, by rw [hs, ho, hf]; rfl⟩

theorem foldl_push_plain {segments kept : List (List Char)}
    (hp : ∀ segment ∈ segments, Plain segment) (hu : ['.', '.'] ∉ segments) :
    segments.foldl pushSegment kept = segments.reverse ++ kept := by
  induction segments generalizing kept with
  | nil => rfl
  | cons segment segments ih =>
    rw [List.forall_mem_cons] at hp
    rw [List.mem_cons, not_or] at hu
    have hpush : pushSegment kept segment = segment :: kept := by
      unfold pushSegment
      rw [if_neg (not_or.mpr ⟨hp.1.nonempty, hp.1.notDot⟩), if_neg (Ne.symm hu.1)]
    rw [List.foldl_cons, hpush, ih hp.2 hu.2]
    simp

theorem intercalate_concat (init : List (List Char)) (last : List Char) :
    ['/'].intercalate (init ++ [last]) =
      (if init = [] then [] else ['/'].intercalate init ++ ['/']) ++ last := by
  induction init with
  | nil => simp
  | cons segment init ih =>
    cases init with
    | nil => simp
    | cons next init => simpa using ih

theorem mem_intercalate {segments : List (List Char)} {c : Char}
    (h : c ∈ ['/'].intercalate segments) : c = '/' ∨ ∃ segment ∈ segments, c ∈ segment := by
  induction segments with
  | nil => simp at h
  | cons segment segments ih =>
    cases segments with
    | nil => exact .inr ⟨segment, List.mem_cons_self, by simpa using h⟩
    | cons next rest =>
      rw [List.intercalate_cons_cons, List.append_assoc, List.mem_append] at h
      rcases h with h | h
      · exact .inr ⟨segment, List.mem_cons_self, h⟩
      · rcases List.mem_cons.mp h with h | h
        · exact .inl h
        · exact (ih h).imp_right fun ⟨s, hs, hc⟩ => ⟨s, List.mem_cons_of_mem _ hs, hc⟩

section Again

variable {segments : List (List Char)} (hk : Kept segments.reverse)
  (hu : ['.', '.'] ∉ segments) (hne : segments ≠ [])

include hk

theorem Kept.plain_of_mem : ∀ segment ∈ segments, Plain segment :=
  fun segment hs => hk.plain segment (List.mem_reverse.mpr hs)

include hne

theorem getLast_joined : (['/'].intercalate segments).getLast? ≠ some '/' := by
  obtain ⟨init, last, rfl⟩ := List.eq_nil_or_concat' segments |>.resolve_left hne
  have hp := hk.plain_of_mem last (by simp)
  rw [intercalate_concat, List.getLast?_append_of_ne_nil _ hp.nonempty]
  intro h
  exact (hp.chars '/' (List.mem_of_getLast? h)).1 rfl

theorem joined_ne_nil : ['/'].intercalate segments ≠ [] := by
  obtain ⟨init, last, rfl⟩ := List.eq_nil_or_concat' segments |>.resolve_left hne
  have hp := hk.plain_of_mem last (by simp)
  rw [intercalate_concat]
  exact List.append_ne_nil_of_right_ne_nil _ hp.nonempty

include hu

theorem keptSegments_joined : keptSegments (['/'].intercalate segments) = segments := by
  rw [keptSegments, List.splitOn_intercalate '/' _ hne, foldl_push_plain hk.plain_of_mem hu]
  · simp
  · intro segment hs hc
    exact ((hk.plain_of_mem segment hs).chars '/' hc).1 rfl

theorem keptSegments_joined_slash :
    keptSegments (['/'].intercalate segments ++ ['/']) = segments := by
  have hj : ['/'].intercalate segments ++ ['/'] = ['/'].intercalate (segments ++ [[]]) := by
    rw [intercalate_concat, if_neg hne, List.append_nil]
  rw [keptSegments, hj, List.splitOn_intercalate '/' _ (by simp), List.foldl_append,
    foldl_push_plain hk.plain_of_mem hu]
  · simp [pushSegment]
  · intro segment hs hc
    rcases List.mem_append.mp hs with hs | hs
    · exact ((hk.plain_of_mem segment hs).chars '/' hc).1 rfl
    · simp_all

end Again

theorem posixNormalize_joined {segments : List (List Char)} (hk : Kept segments.reverse)
    (hu : ['.', '.'] ∉ segments) (hne : segments ≠ []) :
    posixNormalize (['/'].intercalate segments) = ['/'].intercalate segments := by
  rw [posixNormalize, keptSegments_joined hk hu hne, if_neg (joined_ne_nil hk hne),
    if_neg (getLast_joined hk hne)]

theorem posixNormalize_joined_slash {segments : List (List Char)} (hk : Kept segments.reverse)
    (hu : ['.', '.'] ∉ segments) (hne : segments ≠ []) :
    posixNormalize (['/'].intercalate segments ++ ['/']) =
      ['/'].intercalate segments ++ ['/'] := by
  rw [posixNormalize, keptSegments_joined_slash hk hu hne, if_neg (joined_ne_nil hk hne),
    if_pos (by simp)]

theorem escapes_of_up {segments : List (List Char)} (hk : Kept segments.reverse)
    (hu : ['.', '.'] ∈ segments) (tail : List Char) (ht : tail = [] ∨ tail = ['/']) :
    ['/'].intercalate segments ++ tail = ['.', '.'] ∨
      ['.', '.', '/'] <+: ['/'].intercalate segments ++ tail := by
  obtain ⟨rest, rfl⟩ := hk.head_up hu
  rcases rest with _ | ⟨next, rest⟩
  · rcases ht with rfl | rfl
    · exact .inl rfl
    · exact .inr ⟨[], rfl⟩
  · refine .inr ⟨['/'].intercalate (next :: rest) ++ tail, ?_⟩
    rw [List.intercalate_cons_cons]
    simp

/-- What `posixNormalize` can answer about a path that does not escape: `./`, or
segments it would keep again, joined, with or without a slash at the end. -/
theorem posixNormalize_cases {path : List Char} (hb : '\\' ∉ path)
    (hd : posixNormalize path ≠ ['.']) (hu : posixNormalize path ≠ ['.', '.'])
    (he : ¬['.', '.', '/'] <+: posixNormalize path) :
    posixNormalize path = ['.', '/'] ∨
      ∃ segments tail, Kept segments.reverse ∧ ['.', '.'] ∉ segments ∧ segments ≠ [] ∧
        (tail = [] ∨ tail = ['/']) ∧
        posixNormalize path = ['/'].intercalate segments ++ tail := by
  have hk := keptSegments_kept hb
  unfold posixNormalize at hd hu he ⊢
  generalize keptSegments path = segments at hk hd hu he ⊢
  by_cases hne : segments = []
  · subst hne
    left
    dsimp only [List.intercalate_nil] at hd ⊢
    rw [if_pos rfl] at hd ⊢
    split at hd
    · rename_i ht
      rw [if_pos ht]
    · exact (hd rfl).elim
  · right
    have hj := joined_ne_nil hk hne
    dsimp only at hu he ⊢
    rw [if_neg hj] at hu he ⊢
    by_cases ht : path.getLast? = some '/'
    · rw [if_pos ht] at hu he ⊢
      refine ⟨segments, ['/'], hk, fun h => ?_, hne, .inr rfl, rfl⟩
      exact (escapes_of_up hk h ['/'] (.inr rfl)).elim hu he
    · rw [if_neg ht] at hu he ⊢
      refine ⟨segments, [], hk, fun h => ?_, hne, .inl rfl, (List.append_nil _).symm⟩
      have := escapes_of_up hk h [] (.inl rfl)
      rw [List.append_nil] at this
      exact this.elim hu he

theorem normalizeRepositoryPath_ok {value path : String}
    (h : normalizeRepositoryPath value = .ok path) :
    path = String.ofList (posixNormalize (forwardSlashes value)) ∧
      posixNormalize (forwardSlashes value) ≠ ['.'] ∧
      posixNormalize (forwardSlashes value) ≠ ['.', '.'] ∧
      ¬['.', '.', '/'] <+: posixNormalize (forwardSlashes value) := by
  unfold normalizeRepositoryPath at h
  dsimp only at h
  split at h
  · cases h
  · split at h
    · cases h
    · rename_i hn
      rw [not_or, not_or] at hn
      exact ⟨(Except.ok.inj h).symm, hn⟩

theorem normalizeRepositoryPath_ne_empty {value path : String}
    (h : normalizeRepositoryPath value = .ok path) : path ≠ "" := by
  obtain ⟨hp, -⟩ := normalizeRepositoryPath_ok h
  intro hempty
  have hnil : posixNormalize (forwardSlashes value) = [] := by
    rw [hempty] at hp
    simpa using (congrArg String.toList hp).symm
  unfold posixNormalize at hnil
  dsimp only at hnil
  split at hnil
  · split at hnil <;> cases hnil
  · rename_i hbody
    split at hnil
    · exact hbody (List.append_eq_nil_iff.mp hnil).1
    · exact hbody hnil

theorem forwardSlashes_noBackslash (value : String) : '\\' ∉ forwardSlashes value := by
  intro h
  obtain ⟨c, -, hc⟩ := List.mem_map.mp h
  split at hc
  · cases hc
  · exact absurd hc ‹_›

theorem forwardSlashes_ofList {path : List Char} (h : '\\' ∉ path) :
    forwardSlashes (String.ofList path) = path := by
  rw [forwardSlashes, String.toList_ofList]
  conv => rhs; rw [← List.map_id path]
  refine List.map_congr_left fun c hc => ?_
  have hne : c ≠ '\\' := fun he => h (he ▸ hc)
  rw [if_neg hne]
  rfl

/-- **A normalized path, if it is accepted again, is left as it is.** -/
theorem normalizeRepositoryPath_idem {value path again : String}
    (h₁ : normalizeRepositoryPath value = .ok path)
    (h₂ : normalizeRepositoryPath path = .ok again) : again = path := by
  obtain ⟨hp, hd, hu, he⟩ := normalizeRepositoryPath_ok h₁
  obtain ⟨ha, -⟩ := normalizeRepositoryPath_ok h₂
  suffices hfix : posixNormalize (forwardSlashes path) = posixNormalize (forwardSlashes value) by
    rw [ha, hfix, ← hp]
  rw [hp]
  rcases posixNormalize_cases (forwardSlashes_noBackslash value) hd hu he with
    hs | ⟨segments, tail, hk, hup, hne, ht, hs⟩
  · rw [hs]
    rfl
  · have hb : '\\' ∉ ['/'].intercalate segments ++ tail := by
      intro h
      rcases List.mem_append.mp h with h | h
      · rcases mem_intercalate h with h | ⟨segment, hm, hc⟩
        · cases h
        · exact ((hk.plain_of_mem segment hm).chars _ hc).2 rfl
      · rcases ht with rfl | rfl <;> simp at h
    rw [hs, forwardSlashes_ofList hb]
    rcases ht with rfl | rfl
    · rw [List.append_nil]
      exact posixNormalize_joined hk hup hne
    · exact posixNormalize_joined_slash hk hup hne

/-! ## Lists of paths -/

theorem mapM_ok {α β ε : Type} {f : α → Except ε β} {xs : List α} {ys : List β}
    (h : xs.mapM f = .ok ys) : List.Forall₂ (fun x y => f x = .ok y) xs ys := by
  induction xs generalizing ys with
  | nil =>
    rw [List.mapM_nil] at h
    obtain rfl := Except.ok.inj h
    exact .nil
  | cons x xs ih =>
    rw [List.mapM_cons] at h
    cases hx : f x with
    | error e => rw [hx] at h; cases h
    | ok y =>
      cases hxs : xs.mapM f with
      | error e => rw [hx, hxs] at h; cases h
      | ok rest =>
        rw [hx, hxs] at h
        obtain rfl := Except.ok.inj h
        exact .cons hx (ih hxs)

theorem forall₂_mem {α β : Type} {R : α → β → Prop} {xs : List α} {ys : List β}
    (h : List.Forall₂ R xs ys) {x : α} (hx : x ∈ xs) : ∃ y ∈ ys, R x y := by
  induction h with
  | nil => cases hx
  | cons hr _ ih =>
    rcases List.mem_cons.mp hx with rfl | hx
    · exact ⟨_, List.mem_cons_self, hr⟩
    · obtain ⟨y, hy, hr⟩ := ih hx
      exact ⟨y, List.mem_cons_of_mem _ hy, hr⟩

theorem forall₂_eq {α : Type} {R : α → α → Prop} {xs ys : List α} (h : List.Forall₂ R xs ys)
    (hx : ∀ x ∈ xs, ∀ y, R x y → y = x) : ys = xs := by
  induction h with
  | nil => rfl
  | cons hr _ ih =>
    rw [List.forall_mem_cons] at hx
    rw [hx.1 _ hr, ih hx.2]

theorem mem_uniqueRepositoryPaths {values paths : List String}
    (h : uniqueRepositoryPaths values = .ok paths) {path : String} :
    path ∈ paths ↔ ∃ value ∈ values, normalizeRepositoryPath value = .ok path := by
  unfold uniqueRepositoryPaths at h
  cases hm : values.mapM normalizeRepositoryPath with
  | error e => rw [hm] at h; cases h
  | ok normalized =>
    rw [hm] at h
    obtain rfl := Except.ok.inj h
    have hall := mapM_ok hm
    rw [mem_sortStrings, mem_unique]
    constructor
    · intro hp
      obtain ⟨value, hv, hn⟩ := forall₂_mem hall.flip hp
      exact ⟨value, hv, hn⟩
    · rintro ⟨value, hv, hn⟩
      obtain ⟨path', hp, hn'⟩ := forall₂_mem hall hv
      exact Except.ok.inj (hn'.symm.trans hn) ▸ hp

/-- A list `uniqueRepositoryPaths` leaves as it is, if it accepts it. -/
structure Canonical (paths : List String) : Prop where
  normal : ∀ path ∈ paths, ∀ again, normalizeRepositoryPath path = .ok again → again = path
  nodup : paths.Nodup
  sorted : paths.Pairwise StringLe

theorem uniqueRepositoryPaths_canonical {values paths : List String}
    (h : uniqueRepositoryPaths values = .ok paths) : Canonical paths := by
  have hmem := @mem_uniqueRepositoryPaths values paths h
  unfold uniqueRepositoryPaths at h
  cases hm : values.mapM normalizeRepositoryPath with
  | error e => rw [hm] at h; cases h
  | ok normalized =>
    rw [hm] at h
    have he := Except.ok.inj h
    refine ⟨fun path hp again ha => ?_, ?_, ?_⟩
    · obtain ⟨value, -, hn⟩ := hmem.mp hp
      exact normalizeRepositoryPath_idem hn ha
    · exact he ▸ (sortStrings_perm _).nodup_iff.mpr (unique_nodup _)
    · exact he ▸ sortStrings_sorted _

theorem Canonical.eq_self {paths again : List String} (h : Canonical paths)
    (ha : uniqueRepositoryPaths paths = .ok again) : again = paths := by
  unfold uniqueRepositoryPaths at ha
  cases hm : paths.mapM normalizeRepositoryPath with
  | error e => rw [hm] at ha; cases ha
  | ok normalized =>
    rw [hm] at ha
    have hsame : normalized = paths := forall₂_eq (mapM_ok hm) h.normal
    obtain rfl := Except.ok.inj ha
    rw [hsame, unique_eq_self h.nodup, sortStrings_eq_self h.sorted]

theorem Canonical.filter {paths : List String} (h : Canonical paths) (p : String → Bool) :
    Canonical (paths.filter p) where
  normal path hp := h.normal path (List.mem_of_mem_filter hp)
  nodup := h.nodup.filter p
  sorted := h.sorted.sublist List.filter_sublist

end AgenticGit.Shared
