import Mathlib.Data.List.Sort
import Mathlib.Data.List.Perm.Basic
import AgenticGit.Lib.JsonText

/- Values that JSON text can name, printed with the entries of every object in
   the order they are in, and printed with them sorted by key.

   `undefined` is not such a value; it is here because an object of the language
   may hold it, and `JSON.stringify` then leaves the entry out.

   What is proved:
     1. `print_inj` — the text of a value is read in one way, whatever follows.
     2. `sameButOrder_sorted` — sorting changes nothing but the order in which
        objects list their entries.
     3. `print_sorted_iff` — so the sorted text is the same exactly for values
        that differ in that order alone. -/
namespace AgenticGit.Json

inductive Value where
  | undefined
  | null
  | bool (b : Bool)
  | number (n : Number)
  | string (s : Units)
  | array (items : List Value)
  | object (entries : List (Units × Value))
  deriving Repr

def commaUnit : UInt16 := 44
def colonUnit : UInt16 := 58

/-- `texts.join(",")`, after the first. -/
def joinRest (texts : List Units) : Units := texts.flatMap (commaUnit :: ·)

/-- `texts.join(",")`. -/
def joinComma : List Units → Units
  | [] => []
  | first :: rest => first ++ joinRest rest

/-- `[` and `]` around the texts. -/
def bracket (texts : List Units) : Units := 91 :: joinComma texts ++ [93]

/-- `{` and `}` around the texts. -/
def brace (texts : List Units) : Units := 123 :: joinComma texts ++ [125]

def member (key text : Units) : Units := quote key ++ colonUnit :: text

mutual
/-- The text of a value; `undefined` reads as `null`. -/
def print : Value → Units
  | .undefined => ascii "null"
  | .null => ascii "null"
  | .bool b => if b then ascii "true" else ascii "false"
  | .number n => printNumber n
  | .string s => quote s
  | .array items => bracket (printItems items)
  | .object entries => brace (printEntries entries)

def printItems : List Value → List Units
  | [] => []
  | item :: items => print item :: printItems items

def printEntries : List (Units × Value) → List Units
  | [] => []
  | (key, value) :: entries => member key (print value) :: printEntries entries
end

mutual
/-- No `undefined` anywhere, and no object lists a key twice: a value that
JSON text can name. -/
def isJson : Value → Bool
  | .undefined => false
  | .null | .bool _ | .number _ | .string _ => true
  | .array items => itemsJson items
  | .object entries => entriesJson entries && decide (entries.map Prod.fst).Nodup

def itemsJson : List Value → Bool
  | [] => true
  | item :: items => isJson item && itemsJson items

def entriesJson : List (Units × Value) → Bool
  | [] => true
  | (_, value) :: entries => isJson value && entriesJson entries
end

/-! ## Reading a value back -/

def kind : Value → Nat
  | .undefined | .null => 0
  | .bool _ => 1
  | .number _ => 2
  | .string _ => 3
  | .array _ => 4
  | .object _ => 5

theorem kind_lt (v : Value) : kind v < 6 := by
  cases v <;> simp [kind]

/-- The form of the value whose text starts with the unit. -/
def kindOfUnit (u : UInt16) : Nat :=
  if u = 110 then 0
  else if u = 116 ∨ u = 102 then 1
  else if isDigitUnit u ∨ u = minusUnit then 2
  else if u = quoteUnit then 3
  else if u = 91 then 4
  else if u = 123 then 5
  else 6

theorem kindOfUnit_number {u : UInt16} (h : isDigitUnit u = true ∨ u = minusUnit) :
    kindOfUnit u = 2 := by
  have hne {c : UInt16} (hc : ¬(isDigitUnit c = true ∨ c = minusUnit)) : u ≠ c := by
    rintro rfl
    exact hc h
  unfold kindOfUnit
  rw [if_neg (hne (by decide)), if_neg (not_or.mpr ⟨hne (by decide), hne (by decide)⟩), if_pos h]

theorem print_head (v : Value) : ∃ u rest, print v = u :: rest ∧ kindOfUnit u = kind v := by
  cases v with
  | undefined => exact ⟨110, _, rfl, by decide⟩
  | null => exact ⟨110, _, rfl, by decide⟩
  | bool b =>
    cases b
    · exact ⟨102, _, rfl, by decide⟩
    · exact ⟨116, _, rfl, by decide⟩
  | number n =>
    obtain ⟨u, rest, hn, hu⟩ := printNumber_head n
    refine ⟨u, rest, ?_, kindOfUnit_number hu⟩
    rw [print, hn]
  | string s => exact ⟨quoteUnit, _, by rw [print]; rfl, rfl⟩
  | array items => exact ⟨91, _, by rw [print]; rfl, rfl⟩
  | object entries => exact ⟨123, _, by rw [print]; rfl, rfl⟩

variable {r r' : Units}

theorem kind_eq {v w : Value} (h : print v ++ r = print w ++ r') : kind v = kind w := by
  obtain ⟨u, rest, hv, hu⟩ := print_head v
  obtain ⟨u', rest', hw, hu'⟩ := print_head w
  rw [hv, hw] at h
  rw [← hu, (List.cons.inj h).1, hu']

def Stops (r : Units) : Prop := ∀ c ∈ r.head?, isNumberUnit c = false

theorem stops_cons {c : UInt16} (h : isNumberUnit c = false) (r : Units) : Stops (c :: r) := by
  intro d hd
  obtain rfl := Option.some.inj hd
  exact h

theorem join_closed {texts : List Units} {r : Units} {last : UInt16}
    (hl : isNumberUnit last = false) : Stops (joinRest texts ++ last :: r) := by
  cases texts with
  | nil => exact stops_cons hl r
  | cons text texts => exact stops_cons (by decide) _

theorem print_ne_close (v : Value) (t r : Units) : print v ++ t ≠ 93 :: r := by
  intro h
  obtain ⟨u, rest, hv, hu⟩ := print_head v
  rw [hv] at h
  obtain rfl := (List.cons.inj h).1
  have hlt := kind_lt v
  have hclose : kindOfUnit 93 = 6 := by decide
  omega

theorem bool_inj {b b' : Bool} (h : print (.bool b) ++ r = print (.bool b') ++ r') :
    b = b' ∧ r = r' := by
  simp only [print] at h
  cases b <;> cases b'
  · exact ⟨rfl, List.append_cancel_left h⟩
  · exact absurd (List.cons.inj h).1 (by decide)
  · exact absurd (List.cons.inj h).1 (by decide)
  · exact ⟨rfl, List.append_cancel_left h⟩

theorem number_inj {n n' : Number} (hr : Stops r) (hr' : Stops r')
    (h : printNumber n ++ r = printNumber n' ++ r') : n = n' ∧ r = r' := by
  obtain ⟨hn, h⟩ := append_inj_stop (printNumber_units n) (printNumber_units n') hr hr' h
  exact ⟨printNumber_injective hn, h⟩

mutual
/-- **A value is read back, whatever follows it.** -/
theorem print_inj : ∀ (v w : Value) {r r' : Units}, isJson v = true → isJson w = true →
    Stops r → Stops r' → print v ++ r = print w ++ r' → v = w ∧ r = r'
  | .undefined, _, _, _, hv, _, _, _, _ => absurd hv (by simp [isJson])
  | .null, w, r, r', _, hw, _, _, h => by
    have hk := kind_eq h
    cases w <;> simp [kind] at hk
    · exact absurd hw (by simp [isJson])
    · exact ⟨rfl, List.append_cancel_left h⟩
  | .bool b, w, r, r', _, _, _, _, h => by
    have hk := kind_eq h
    cases w <;> simp [kind] at hk
    obtain ⟨rfl, hrest⟩ := bool_inj h
    exact ⟨rfl, hrest⟩
  | .number n, w, r, r', _, _, hr, hr', h => by
    have hk := kind_eq h
    cases w <;> simp [kind] at hk
    simp only [print] at h
    obtain ⟨rfl, hrest⟩ := number_inj hr hr' h
    exact ⟨rfl, hrest⟩
  | .string s, w, r, r', _, _, _, _, h => by
    have hk := kind_eq h
    cases w <;> simp [kind] at hk
    simp only [print] at h
    obtain ⟨rfl, hrest⟩ := quote_inj h
    exact ⟨rfl, hrest⟩
  | .array [], w, r, r', hv, hw, _, _, h => by
    have hk := kind_eq h
    cases w <;> simp [kind] at hk
    rename_i ys
    cases ys with
    | nil => exact ⟨rfl, List.append_cancel_left h⟩
    | cons y ys =>
      simp only [print, bracket, printItems, joinComma, List.cons_append, List.append_assoc,
        List.nil_append] at h
      exact absurd (List.cons.inj h).2.symm (print_ne_close y _ _)
  | .array (x :: xs), w, r, r', hv, hw, _, _, h => by
    have hk := kind_eq h
    cases w <;> simp [kind] at hk
    rename_i ys
    simp only [isJson] at hv hw
    cases ys with
    | nil =>
      simp only [print, bracket, printItems, joinComma, List.cons_append, List.append_assoc,
        List.nil_append] at h
      exact absurd (List.cons.inj h).2 (print_ne_close x _ _)
    | cons y ys =>
      simp only [print, bracket, printItems, joinComma, List.cons_append, List.append_assoc,
        List.nil_append] at h
      have hjoin := congrArg (commaUnit :: ·) (List.cons.inj h).2
      obtain ⟨he, h⟩ := joinItems_inj (x :: xs) (y :: ys) hv hw
        (by simpa [joinRest, printItems] using hjoin)
      exact ⟨congrArg Value.array he, h⟩
  | .object [], w, r, r', hv, hw, _, _, h => by
    have hk := kind_eq h
    cases w <;> simp [kind] at hk
    rename_i ys
    cases ys with
    | nil => exact ⟨rfl, List.append_cancel_left h⟩
    | cons y ys =>
      simp only [print, brace, printEntries, joinComma, member, quote, List.cons_append] at h
      exact absurd (List.cons.inj (List.cons.inj h).2).1 (by decide)
  | .object (x :: xs), w, r, r', hv, hw, _, _, h => by
    have hk := kind_eq h
    cases w <;> simp [kind] at hk
    rename_i ys
    simp only [isJson, Bool.and_eq_true] at hv hw
    cases ys with
    | nil =>
      simp only [print, brace, printEntries, joinComma, member, quote, List.cons_append] at h
      exact absurd (List.cons.inj (List.cons.inj h).2).1 (by decide)
    | cons y ys =>
      simp only [print, brace, printEntries, joinComma, List.cons_append, List.append_assoc,
        List.nil_append] at h
      have hjoin := congrArg (commaUnit :: ·) (List.cons.inj h).2
      obtain ⟨he, h⟩ := joinEntries_inj (x :: xs) (y :: ys) hv.1 hw.1
        (by simpa [joinRest, printEntries] using hjoin)
      exact ⟨congrArg Value.object he, h⟩

theorem joinItems_inj : ∀ (xs ys : List Value) {r r' : Units}, itemsJson xs = true →
    itemsJson ys = true →
    joinRest (printItems xs) ++ 93 :: r = joinRest (printItems ys) ++ 93 :: r' →
    xs = ys ∧ r = r'
  | [], [], _, _, _, _, h => ⟨rfl, (List.cons.inj h).2⟩
  | [], _ :: _, _, _, _, _, h => absurd (List.cons.inj h).1 (by decide)
  | _ :: _, [], _, _, _, _, h => absurd (List.cons.inj h).1 (by decide)
  | x :: xs, y :: ys, r, r', hx, hy, h => by
    simp only [itemsJson, Bool.and_eq_true] at hx hy
    simp only [joinRest, printItems, List.flatMap_cons, List.cons_append, List.append_assoc] at h
    obtain ⟨rfl, hitems⟩ := print_inj x y hx.1 hy.1 (join_closed (by decide))
      (join_closed (by decide)) (List.cons.inj h).2
    obtain ⟨rfl, hrest⟩ := joinItems_inj xs ys hx.2 hy.2 hitems
    exact ⟨rfl, hrest⟩

theorem joinEntries_inj : ∀ (xs ys : List (Units × Value)) {r r' : Units},
    entriesJson xs = true → entriesJson ys = true →
    joinRest (printEntries xs) ++ 125 :: r = joinRest (printEntries ys) ++ 125 :: r' →
    xs = ys ∧ r = r'
  | [], [], _, _, _, _, h => ⟨rfl, (List.cons.inj h).2⟩
  | [], _ :: _, _, _, _, _, h => absurd (List.cons.inj h).1 (by decide)
  | _ :: _, [], _, _, _, _, h => absurd (List.cons.inj h).1 (by decide)
  | (key, x) :: xs, (key', y) :: ys, r, r', hx, hy, h => by
    simp only [entriesJson, Bool.and_eq_true] at hx hy
    simp only [joinRest, printEntries, List.flatMap_cons, List.cons_append, List.append_assoc,
      member] at h
    obtain ⟨rfl, hvalue⟩ := quote_inj (List.cons.inj h).2
    obtain ⟨rfl, hentries⟩ := print_inj x y hx.1 hy.1 (join_closed (by decide))
      (join_closed (by decide)) (List.cons.inj hvalue).2
    obtain ⟨rfl, hrest⟩ := joinEntries_inj xs ys hx.2 hy.2 hentries
    exact ⟨rfl, hrest⟩
end

/-! ## The order of entries -/

/-- Entries in the order of their keys' code units. -/
def KeyLe {α : Type} (a b : Units × α) : Prop := a.1 ≤ b.1

instance {α : Type} : DecidableRel (KeyLe (α := α)) :=
  fun a b => inferInstanceAs (Decidable (a.1 ≤ b.1))

instance {α : Type} : Std.Total (KeyLe (α := α)) :=
  ⟨fun a b => Std.le_total (a := a.1) (b := b.1)⟩

instance {α : Type} : IsTrans (Units × α) KeyLe := ⟨fun _ _ _ h₁ h₂ => Std.le_trans h₁ h₂⟩

def sortByKey {α : Type} (entries : List (Units × α)) : List (Units × α) :=
  entries.insertionSort KeyLe

theorem map_sortByKey {α β : Type} (f : α → β) (entries : List (Units × α)) :
    (sortByKey entries).map (fun entry => (entry.1, f entry.2)) =
      sortByKey (entries.map fun entry => (entry.1, f entry.2)) :=
  List.map_insertionSort KeyLe KeyLe _ _ fun _ _ _ _ => Iff.rfl

def isUndefined : Value → Bool
  | .undefined => true
  | _ => false

mutual
/-- The value with every object's entries sorted by key, those that are
`undefined` left out. -/
def sorted : Value → Value
  | .undefined => .null
  | .array items => .array (sortedItems items)
  | .object entries => .object (sortByKey (sortedEntries entries))
  | .null => .null
  | .bool b => .bool b
  | .number n => .number n
  | .string s => .string s

def sortedItems : List Value → List Value
  | [] => []
  | item :: items => sorted item :: sortedItems items

def sortedEntries : List (Units × Value) → List (Units × Value)
  | [] => []
  | (key, value) :: entries =>
    if isUndefined value then sortedEntries entries
    else (key, sorted value) :: sortedEntries entries
end

/-- The same value, up to the order in which its objects list their entries. -/
inductive SameButOrder : Value → Value → Prop
  | refl (v : Value) : SameButOrder v v
  | trans {u v w : Value} : SameButOrder u v → SameButOrder v w → SameButOrder u w
  | reorder {entries entries' : List (Units × Value)} :
      entries.Perm entries' → SameButOrder (.object entries) (.object entries')
  | item {v w : Value} (before after : List Value) :
      SameButOrder v w → SameButOrder (.array (before ++ v :: after)) (.array (before ++ w :: after))
  | entry {v w : Value} (before after : List (Units × Value)) (key : Units) :
      SameButOrder v w →
      SameButOrder (.object (before ++ (key, v) :: after)) (.object (before ++ (key, w) :: after))

theorem SameButOrder.symm {v w : Value} (h : SameButOrder v w) : SameButOrder w v := by
  induction h with
  | refl v => exact .refl v
  | trans _ _ ih₁ ih₂ => exact ih₂.trans ih₁
  | reorder h => exact .reorder h.symm
  | item before after _ ih => exact .item before after ih
  | entry before after key _ ih => exact .entry before after key ih

theorem itemsJson_iff {items : List Value} :
    itemsJson items = true ↔ ∀ item ∈ items, isJson item = true := by
  induction items with
  | nil => simp [itemsJson]
  | cons item items ih => simp [itemsJson, ih]

theorem entriesJson_iff {entries : List (Units × Value)} :
    entriesJson entries = true ↔ ∀ entry ∈ entries, isJson entry.2 = true := by
  induction entries with
  | nil => simp [entriesJson]
  | cons entry entries ih => simp [entriesJson, ih]

theorem isUndefined_json {v : Value} (h : isJson v = true) : isUndefined v = false := by
  cases v <;> first | rfl | exact absurd h (by simp [isJson])

theorem sortedEntries_eq {entries : List (Units × Value)} (h : entriesJson entries = true) :
    sortedEntries entries = entries.map fun entry => (entry.1, sorted entry.2) := by
  induction entries with
  | nil => rfl
  | cons entry entries ih =>
    simp only [entriesJson, Bool.and_eq_true] at h
    rw [sortedEntries, isUndefined_json h.1, ih h.2]
    rfl

theorem sortByKey_perm {α : Type} (entries : List (Units × α)) :
    (sortByKey entries).Perm entries :=
  List.perm_insertionSort _ _

mutual
theorem sorted_json : ∀ v : Value, isJson v = true → isJson (sorted v) = true
  | .undefined, _ => rfl
  | .null, _ => rfl
  | .bool _, _ => rfl
  | .number _, _ => rfl
  | .string _, _ => rfl
  | .array items, h => sortedItems_json items h
  | .object entries, h => by
    simp only [isJson, Bool.and_eq_true, decide_eq_true_eq] at h
    have hperm := sortByKey_perm (sortedEntries entries)
    simp only [sorted, isJson, Bool.and_eq_true, decide_eq_true_eq]
    constructor
    · rw [entriesJson_iff]
      intro entry he
      exact entriesJson_iff.mp (sortedEntries_json entries h.1) entry (hperm.subset he)
    · rw [(hperm.map Prod.fst).nodup_iff, sortedEntries_eq h.1, List.map_map]
      exact h.2

theorem sortedItems_json : ∀ items : List Value, itemsJson items = true →
    itemsJson (sortedItems items) = true
  | [], _ => rfl
  | item :: items, h => by
    simp only [itemsJson, sortedItems, Bool.and_eq_true] at h ⊢
    exact ⟨sorted_json item h.1, sortedItems_json items h.2⟩

theorem sortedEntries_json : ∀ entries : List (Units × Value), entriesJson entries = true →
    entriesJson (sortedEntries entries) = true
  | [], _ => rfl
  | (key, value) :: entries, h => by
    simp only [entriesJson, Bool.and_eq_true] at h
    rw [sortedEntries, isUndefined_json h.1]
    simp only [Bool.false_eq_true, if_false, entriesJson, Bool.and_eq_true]
    exact ⟨sorted_json value h.1, sortedEntries_json entries h.2⟩
end

mutual
/-- **Sorting changes nothing but the order of entries.** -/
theorem sameButOrder_sorted : ∀ v : Value, isJson v = true → SameButOrder v (sorted v)
  | .undefined, h => absurd h (by simp [isJson])
  | .null, _ => .refl _
  | .bool _, _ => .refl _
  | .number _, _ => .refl _
  | .string _, _ => .refl _
  | .array items, h => sameButOrder_items [] items h
  | .object entries, h => by
    simp only [isJson, Bool.and_eq_true] at h
    exact (sameButOrder_entries [] entries h.1).trans (.reorder (sortByKey_perm _).symm)

theorem sameButOrder_items : ∀ before items : List Value, itemsJson items = true →
    SameButOrder (.array (before ++ items)) (.array (before ++ sortedItems items))
  | before, [], _ => .refl _
  | before, item :: items, h => by
    simp only [itemsJson, Bool.and_eq_true] at h
    have hrest := sameButOrder_items (before ++ [sorted item]) items h.2
    rw [List.append_assoc, List.append_assoc] at hrest
    exact (SameButOrder.item before items (sameButOrder_sorted item h.1)).trans hrest

theorem sameButOrder_entries : ∀ before entries : List (Units × Value),
    entriesJson entries = true →
    SameButOrder (.object (before ++ entries)) (.object (before ++ sortedEntries entries))
  | before, [], _ => .refl _
  | before, (key, value) :: entries, h => by
    simp only [entriesJson, Bool.and_eq_true] at h
    have hrest := sameButOrder_entries (before ++ [(key, sorted value)]) entries h.2
    rw [List.append_assoc, List.append_assoc] at hrest
    rw [sortedEntries, isUndefined_json h.1]
    exact (SameButOrder.entry before entries key (sameButOrder_sorted value h.1)).trans hrest
end

theorem sortByKey_eq {α : Type} {entries entries' : List (Units × α)} (h : entries.Perm entries')
    (hn : (entries.map Prod.fst).Nodup) : sortByKey entries = sortByKey entries' := by
  have hperm := ((sortByKey_perm entries).trans h).trans (sortByKey_perm entries').symm
  refine @List.Perm.eq_of_pairwise _ KeyLe _ _ ?_ (List.pairwise_insertionSort _ _)
    (List.pairwise_insertionSort _ _) hperm
  intro a b ha hb hab hba
  have hkey : a.1 = b.1 := Std.le_antisymm hab hba
  have ha := (sortByKey_perm entries).subset ha
  have hb := h.symm.subset ((sortByKey_perm entries').subset hb)
  exact List.inj_on_of_nodup_map hn ha hb hkey

theorem sortedItems_append (xs ys : List Value) :
    sortedItems (xs ++ ys) = sortedItems xs ++ sortedItems ys := by
  induction xs with
  | nil => rfl
  | cons x xs ih => simp [sortedItems, ih]

/-- **Values that differ in the order of entries alone are sorted into one.** -/
theorem SameButOrder.sorted_eq {v w : Value} (h : SameButOrder v w) (hv : isJson v = true) :
    isJson w = true ∧ sorted v = sorted w := by
  induction h with
  | refl v => exact ⟨hv, rfl⟩
  | trans _ _ ih₁ ih₂ =>
    obtain ⟨hm, h₁⟩ := ih₁ hv
    obtain ⟨hw, h₂⟩ := ih₂ hm
    exact ⟨hw, h₁.trans h₂⟩
  | @reorder entries entries' hp =>
    simp only [isJson, Bool.and_eq_true, decide_eq_true_eq] at hv ⊢
    have hjson : entriesJson entries' = true :=
      entriesJson_iff.mpr fun e he => entriesJson_iff.mp hv.1 e (hp.symm.subset he)
    refine ⟨⟨hjson, ((hp.map Prod.fst).nodup_iff).mp hv.2⟩, ?_⟩
    rw [sorted, sorted, sortedEntries_eq hv.1, sortedEntries_eq hjson]
    congr 1
    apply sortByKey_eq (hp.map _)
    rw [List.map_map]
    exact hv.2
  | @item v w before after _ ih =>
    simp only [isJson, itemsJson_iff, List.forall_mem_append, List.forall_mem_cons] at hv ⊢
    obtain ⟨hw, he⟩ := ih hv.2.1
    refine ⟨⟨hv.1, hw, hv.2.2⟩, ?_⟩
    simp only [sorted, sortedItems_append, sortedItems, he]
  | @entry v w before after key _ ih =>
    simp only [isJson, Bool.and_eq_true, decide_eq_true_eq, entriesJson_iff,
      List.forall_mem_append, List.forall_mem_cons] at hv ⊢
    obtain ⟨hw, he⟩ := ih hv.1.2.1
    have hjson {x : Value} (hx : isJson x = true) :
        entriesJson (before ++ (key, x) :: after) = true := by
      rw [entriesJson_iff, List.forall_mem_append, List.forall_mem_cons]
      exact ⟨hv.1.1, hx, hv.1.2.2⟩
    refine ⟨⟨⟨hv.1.1, hw, hv.1.2.2⟩, by simpa using hv.2⟩, ?_⟩
    rw [sorted, sorted, sortedEntries_eq (hjson hv.1.2.1), sortedEntries_eq (hjson hw)]
    simp only [List.map_append, List.map_cons, he]

/-- **The sorted text tells values apart up to the order of entries, and no
further.** -/
theorem print_sorted_iff {v w : Value} (hv : isJson v = true) (hw : isJson w = true) :
    print (sorted v) = print (sorted w) ↔ SameButOrder v w := by
  constructor
  · intro h
    have hnil : Stops [] := fun c hc => absurd hc (by simp)
    obtain ⟨hs, -⟩ := print_inj (sorted v) (sorted w) (sorted_json v hv) (sorted_json w hw)
      hnil hnil (congrArg (· ++ []) h)
    have hback := (sameButOrder_sorted w hw).symm
    rw [← hs] at hback
    exact (sameButOrder_sorted v hv).trans hback
  · intro h
    rw [(h.sorted_eq hv).2]

end AgenticGit.Json
