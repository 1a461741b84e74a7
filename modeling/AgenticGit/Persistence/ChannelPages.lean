import Mathlib.Data.List.Sort
import Mathlib.Data.String.Basic
import AgenticGit.Lib.Keyset

/- The transcript of a channel, page by page: `listChannelMessages` and
   `completeChannelPage` of `sqlite-store.ts`.

   A message sits at its bump when it has one and otherwise at the time it was
   written. A reader goes back through a room by asking for the messages before
   the position of the oldest one it holds. The replies and reactions a page is
   read with change neither its messages nor their order and are left out, as is
   everything of a row that no query here looks at (`columns`).

   Correspondence (TypeScript ↔ Lean):
     channel_messages                                    ↔ `ChannelTable`
     COALESCE(bumped_at, created_at)                     ↔ `coalescePosition`
     channelPosition / generalChannelId                  ↔ the same names
     clauses, joined by AND                              ↔ `clauses`
     SELECT .. ORDER BY .. DESC, rowid DESC              ↔ `select`
     completeChannelPage / listChannelMessages           ↔ the same names

   What is proved: a page is the page of the whole listing of the room
   (`listChannelMessages_eq`), so that paging back returns every message of the
   room exactly once, in the order of their positions, and ends
   (`paging_loses_none`). -/
namespace AgenticGit.Persistence.Channels
open AgenticGit.Keyset

variable {γ : Type}

/-! ## The model -/

/-- A row of `channel_messages`. -/
structure Row (γ : Type) where
  rowid : Nat
  id : String
  repositoryId : String
  channelId : Option String
  createdAt : String
  bumpedAt : Option String
  columns : γ

/-- The table: row ids and message ids are keys. -/
structure ChannelTable (γ : Type) where
  rows : List (Row γ)
  rowids : (rows.map Row.rowid).Nodup
  ids : (rows.map Row.id).Nodup

/-- A message as the store answers it. -/
structure ChannelMessage (γ : Type) where
  id : String
  repositoryId : String
  channelId : String
  createdAt : String
  columns : γ

structure ChannelMessageFilter where
  channelId : Option String := none
  before : Option String := none
  limit : Option Int := none

def generalChannelId (repositoryId : String) : String := "subchan_general_" ++ repositoryId

/-- `COALESCE(bumped_at, created_at)`; SQLite compares text as Lean does. -/
def coalescePosition (row : Row γ) : String := row.bumpedAt.getD row.createdAt

def channelPosition (row : Row γ) : String :=
  match row.bumpedAt with
  | some bumped => bumped
  | none => row.createdAt

/-- `clauses.join(" AND ")`, of a row. -/
def clauses (repositoryId : String) (filter : ChannelMessageFilter) (row : Row γ) : Bool :=
  (row.repositoryId = repositoryId &&
    filter.channelId.all fun channelId =>
      row.channelId.getD (generalChannelId repositoryId) = channelId) &&
    filter.before.all fun before => coalescePosition row < before

/-- `ORDER BY COALESCE(bumped_at, created_at) DESC, rowid DESC` -/
def Newer (a b : Row γ) : Prop :=
  coalescePosition b < coalescePosition a ∨
    (coalescePosition a = coalescePosition b ∧ b.rowid ≤ a.rowid)

instance : DecidableRel (@Newer γ) := fun a b =>
  inferInstanceAs (Decidable (coalescePosition b < coalescePosition a ∨
    (coalescePosition a = coalescePosition b ∧ b.rowid ≤ a.rowid)))

def select (table : ChannelTable γ) (condition : Row γ → Bool) : List (Row γ) :=
  (table.rows.filter condition).insertionSort Newer

/-- Replaces a page's trailing position group with the whole of it. -/
def completeChannelPage (table : ChannelTable γ) (rows : List (Row γ)) (condition : Row γ → Bool) :
    List (Row γ) :=
  match rows.getLast? with
  | none => rows
  | some last =>
    let boundary := channelPosition last
    rows.filter (fun row => channelPosition row ≠ boundary) ++
      select table fun row => condition row && coalescePosition row = boundary

def toChannelMessageBase (row : Row γ) : ChannelMessage γ where
  id := row.id
  repositoryId := row.repositoryId
  channelId := row.channelId.getD (generalChannelId row.repositoryId)
  createdAt := row.createdAt
  columns := row.columns

/-- `Math.min(Math.max(filter.limit ?? 50, 1), 200)` -/
def pageLimit (filter : ChannelMessageFilter) : Nat :=
  (min (max (filter.limit.getD 50) 1) 200).toNat

def listChannelMessages (table : ChannelTable γ) (repositoryId : String)
    (filter : ChannelMessageFilter) : List (ChannelMessage γ) :=
  let limit := pageLimit filter
  let rows := (select table (clauses repositoryId filter)).take limit
  let completed := if rows.length = limit ∧ 0 < rows.length then
    completeChannelPage table rows (clauses repositoryId filter) else rows
  completed.reverse.map toChannelMessageBase

def positionOf (table : ChannelTable γ) (id : String) : Option String :=
  (table.rows.find? fun row => row.id = id).map coalescePosition

/-- Going back through a room, each page before the oldest message of the one
    before it, until a page is empty; nothing when `fuel` pages are not enough. -/
def walkBack (table : ChannelTable γ) (repositoryId : String) (channelId : Option String)
    (limits : Nat → Option Int) :
    Nat → Nat → Option String → Option (List (List (ChannelMessage γ)))
  | 0, _, _ => none
  | fuel + 1, i, before =>
    let messages := listChannelMessages table repositoryId { channelId, before, limit := limits i }
    match messages.head? with
    | none => some []
    | some oldest =>
      (walkBack table repositoryId channelId limits fuel (i + 1) (positionOf table oldest.id)).map
        (messages :: ·)

/-! ## The order of a listing -/

theorem channelPosition_eq (row : Row γ) : channelPosition row = coalescePosition row := by
  rw [channelPosition, coalescePosition]
  cases row.bumpedAt <;> rfl

theorem Newer.total (a b : Row γ) : Newer a b ∨ Newer b a := by
  rcases lt_trichotomy (coalescePosition a) (coalescePosition b) with h | h | h
  · exact .inr (.inl h)
  · rcases Nat.le_total b.rowid a.rowid with hr | hr
    · exact .inl (.inr ⟨h, hr⟩)
    · exact .inr (.inr ⟨h.symm, hr⟩)
  · exact .inl (.inl h)

theorem Newer.trans {a b c : Row γ} (h : Newer a b) (h' : Newer b c) : Newer a c := by
  rcases h with h | ⟨h, hr⟩ <;> rcases h' with h' | ⟨h', hr'⟩
  · exact .inl (lt_trans h' h)
  · exact .inl (h' ▸ h)
  · exact .inl (h ▸ h')
  · exact .inr ⟨h.trans h', Nat.le_trans hr' hr⟩

variable {a b : Row γ} {table : ChannelTable γ}

theorem Newer.position (h : Newer a b) : coalescePosition b ≤ coalescePosition a :=
  h.elim le_of_lt fun h => le_of_eq h.1.symm

theorem Newer.rowid_eq (h : Newer a b) (h' : Newer b a) : a.rowid = b.rowid := by
  have hpos := le_antisymm h'.position h.position
  have hle := (h.resolve_left fun hlt => absurd hpos (ne_of_gt hlt)).2
  have hge := (h'.resolve_left fun hlt => absurd hpos (ne_of_lt hlt)).2
  exact Nat.le_antisymm hge hle

theorem ChannelTable.eq_of_rowid (table : ChannelTable γ) (ha : a ∈ table.rows)
    (hb : b ∈ table.rows) (h : a.rowid = b.rowid) : a = b :=
  List.inj_on_of_nodup_map table.rowids ha hb h

theorem mem_select {condition : Row γ → Bool} {row : Row γ} :
    row ∈ select table condition ↔ row ∈ table.rows ∧ condition row = true := by
  rw [select, List.mem_insertionSort, List.mem_filter]

theorem select_newer (table : ChannelTable γ) (condition : Row γ → Bool) :
    (select table condition).Pairwise Newer :=
  haveI : Std.Total (@Newer γ) := ⟨Newer.total⟩
  haveI : IsTrans (Row γ) Newer := ⟨fun _ _ _ => Newer.trans⟩
  List.pairwise_insertionSort Newer _

/-- **A narrower query finds the rows of the wider one that it wants**, in their order. -/
theorem select_and (table : ChannelTable γ) (condition wanted : Row γ → Bool) :
    select table (fun row => condition row && wanted row) =
      (select table condition).filter wanted := by
  refine @List.Perm.eq_of_pairwise _ Newer _ _ ?_ (select_newer _ _)
    ((select_newer _ _).filter _) ?_
  · intro a b ha hb h h'
    exact table.eq_of_rowid (mem_select.1 ha).1
      (mem_select.1 (List.mem_filter.1 hb).1).1 (h.rowid_eq h')
  · have hboth : (table.rows.filter condition).filter wanted =
        table.rows.filter fun row => condition row && wanted row := by
      rw [List.filter_filter]
      exact List.filter_congr fun row _ => Bool.and_comm _ _
    refine (List.perm_insertionSort Newer _).trans ?_
    rw [← hboth]
    exact ((List.perm_insertionSort Newer _).filter wanted).symm

def listing (table : ChannelTable γ) (repositoryId : String) (channelId : Option String) :
    List (Row γ) :=
  select table (clauses repositoryId { channelId })

theorem listing_descending (table : ChannelTable γ) (repositoryId : String)
    (channelId : Option String) :
    Descending coalescePosition (listing table repositoryId channelId) :=
  (select_newer _ _).imp Newer.position

theorem listing_nodup (table : ChannelTable γ) (repositoryId : String) (channelId : Option String) :
    (listing table repositoryId channelId).Nodup :=
  (List.perm_insertionSort Newer _).nodup_iff.2 ((List.Nodup.of_map _ table.rowids).filter _)

theorem select_below (table : ChannelTable γ) (repositoryId : String)
    (filter : ChannelMessageFilter) :
    select table (clauses repositoryId filter) =
      below coalescePosition (listing table repositoryId filter.channelId) filter.before := by
  have hroom : clauses repositoryId { channelId := filter.channelId } =
      fun row : Row γ => row.repositoryId = repositoryId &&
        filter.channelId.all fun channelId =>
          row.channelId.getD (generalChannelId repositoryId) = channelId :=
    funext fun row => Bool.and_true _
  cases hb : filter.before with
  | none =>
    have hall : clauses repositoryId filter =
        clauses (γ := γ) repositoryId { channelId := filter.channelId } := by
      funext row
      rw [clauses, hb, hroom]
      exact Bool.and_true _
    rw [hall]
    rfl
  | some before =>
    rw [below, older, listing, ← select_and, hroom]
    congr 1
    funext row
    rw [clauses, hb]
    rfl

/-- **A page is a page of the listing**, oldest message first. -/
theorem listChannelMessages_eq (table : ChannelTable γ) (repositoryId : String)
    (filter : ChannelMessageFilter) :
    listChannelMessages table repositoryId filter =
      (page coalescePosition (pageLimit filter)
        (below coalescePosition (listing table repositoryId filter.channelId)
          filter.before)).reverse.map toChannelMessageBase := by
  rw [← select_below, listChannelMessages]
  simp only [page, completeChannelPage, channelPosition_eq, select_and]
  cases hlast : ((select table (clauses repositoryId filter)).take (pageLimit filter)).getLast? with
  | none =>
    rw [List.getLast?_eq_none_iff] at hlast
    simp only [hlast, List.length_nil, Nat.lt_irrefl, and_false, if_false]
  | some last =>
    have hpos := List.length_pos_iff.2 (List.ne_nil_of_mem (List.mem_of_getLast? hlast))
    simp only [hpos, and_true]
    rfl

theorem pageLimit_pos (filter : ChannelMessageFilter) : 0 < pageLimit filter := by
  rw [pageLimit]
  omega

theorem positionOf_row {row : Row γ} (h : row ∈ table.rows) :
    positionOf table row.id = some (coalescePosition row) := by
  cases hf : table.rows.find? fun other => other.id = row.id with
  | none => exact absurd (decide_eq_true rfl) (List.find?_eq_none.1 hf row h)
  | some other =>
    have hid := List.find?_some hf
    have hother := List.mem_of_find?_eq_some hf
    rw [positionOf, hf, List.inj_on_of_nodup_map table.ids hother h (of_decide_eq_true hid)]
    rfl

/-! ## The walk -/

theorem walkBack_eq (table : ChannelTable γ) (repositoryId : String) (channelId : Option String)
    (limits : Nat → Option Int) (fuel i : Nat) (before : Option String) :
    walkBack table repositoryId channelId limits fuel i before =
      (walk coalescePosition (fun i => pageLimit { limit := limits i })
        (listing table repositoryId channelId) fuel i before).map
          (List.map fun rows => rows.reverse.map toChannelMessageBase) := by
  induction fuel generalizing i before with
  | zero => rfl
  | succ fuel ih =>
    rw [walkBack, walk, listChannelMessages_eq]
    simp only [List.head?_map, List.head?_reverse]
    have hlimit : pageLimit { channelId, before, limit := limits i } =
        pageLimit { limit := limits i } := rfl
    rw [hlimit]
    cases hlast : (page coalescePosition (pageLimit { limit := limits i })
        (below coalescePosition (listing table repositoryId channelId) before)).getLast? with
    | none => rfl
    | some last =>
      have hrow : last ∈ table.rows :=
        (mem_select.1 (mem_of_mem_below (mem_of_mem_page (List.mem_of_getLast? hlast)))).1
      simp only [Option.map_some]
      have hid : (toChannelMessageBase last).id = last.id := rfl
      rw [hid, positionOf_row hrow, ih, Option.map_map, Option.map_map]
      rfl

/-- **Paging loses no message**: going back through a room ends, and its pages
    hold every message of the room exactly once, in the order of their positions. -/
theorem paging_loses_none (table : ChannelTable γ) (repositoryId : String)
    (channelId : Option String) (limits : Nat → Option Int) :
    ∃ (pages : List (List (ChannelMessage γ))) (rows : List (Row γ)),
      (∀ fuel, table.rows.length < fuel →
        walkBack table repositoryId channelId limits fuel 0 none = some pages) ∧
      (pages.map List.reverse).flatten = rows.map toChannelMessageBase ∧
      rows.Pairwise Newer ∧ rows.Nodup ∧
      ∀ row, row ∈ rows ↔ row ∈ table.rows ∧ row.repositoryId = repositoryId ∧
        ∀ c ∈ channelId, row.channelId.getD (generalChannelId repositoryId) = c := by
  have hlen : (listing table repositoryId channelId).length ≤ table.rows.length := by
    rw [listing, select, (List.perm_insertionSort Newer _).length_eq]
    exact List.length_filter_le _ _
  obtain ⟨pages, hpages, hflat⟩ := walk_flatten (listing_descending table repositoryId channelId)
    (fun i => pageLimit_pos { limit := limits i }) table.rows.length 0 none hlen
  refine ⟨pages.map fun rows => rows.reverse.map toChannelMessageBase,
    listing table repositoryId channelId, fun fuel hfuel => ?_, ?_, select_newer _ _,
    listing_nodup _ _ _, fun row => ?_⟩
  · rw [walkBack_eq, hpages fuel hfuel]
    rfl
  · rw [← show pages.flatten = listing table repositoryId channelId from hflat, List.map_flatten,
      List.map_map]
    congr 2
    funext rows
    rw [Function.comp_apply, List.map_reverse, List.reverse_reverse]
  · rw [listing, mem_select, clauses]
    simp only [Option.all_none, Bool.and_true, Bool.and_eq_true, decide_eq_true_eq,
      Option.all_eq_true]
    exact Iff.rfl

end AgenticGit.Persistence.Channels
