import AgenticGit.Lib.Json
import AgenticGit.Lib.Sha256

/- Tamper-evident hashing for the audit log: `audit-chain.ts`, and what the
   stores write with it.

   Correspondence (TypeScript ↔ Lean):
     a string                                  ↔ its code units, `Units`
     `unknown`, as far as JSON can carry it     ↔ `Value`
     `canonicalJson`, `hashAuditPayload`, `chainHash`, `segmentDigest`,
       `verifyAuditChain`, `verifyArchivedChain` ↔ the functions of those names
     the loops over entries and over segments  ↔ `verifyEntries`, `verifySegments`
     the row `appendAudit` inserts             ↔ `appendedEvent`
     the checkpoint `archiveAuditEvents` writes ↔ `checkpointOf`

   What is proved:
     1. `canonicalJson_iff` — the canonical text tells values apart up to the
        order of object keys.
     2. `verifyEntries_valid_iff` — a chain verifies when every event links
        to the one before (`Linked`).
     3. `altered_detected` — an altered chain is broken at the first altered
        position, as long as no two of the strings hashed share a digest.
     4. `archived_valid_iff` — archiving a prefix keeps the verdict. -/
namespace AgenticGit.Persistence
open AgenticGit.Json AgenticGit.Sha256

def GENESIS_HASH : Units := List.replicate 64 zeroUnit

/-! ## canonicalJson -/

mutual
/-- Serializes with sorted keys. An entry's text does not depend on where it
stands, so here it is made before the entries are sorted. -/
def canonicalJson : Value → Units
  | .undefined => print .null
  | .null => print .null
  | .bool b => print (.bool b)
  | .number n => print (.number n)
  | .string s => print (.string s)
  | .array items => bracket (canonicalItems items)
  | .object entries =>
    brace ((sortByKey (canonicalEntries entries)).map fun entry => member entry.1 entry.2)

def canonicalItems : List Value → List Units
  | [] => []
  | item :: items => canonicalJson item :: canonicalItems items

def canonicalEntries : List (Units × Value) → List (Units × Units)
  | [] => []
  | (key, value) :: entries =>
    if isUndefined value then canonicalEntries entries
    else (key, canonicalJson value) :: canonicalEntries entries
end

theorem printEntries_eq (entries : List (Units × Value)) :
    printEntries entries = entries.map fun entry => member entry.1 (print entry.2) := by
  induction entries with
  | nil => rfl
  | cons entry entries ih => rw [printEntries, ih, List.map_cons]

mutual
theorem canonicalJson_eq : ∀ v : Value, canonicalJson v = print (sorted v)
  | .undefined => by rw [canonicalJson, sorted]
  | .null => by rw [canonicalJson, sorted]
  | .bool b => by rw [canonicalJson, sorted]
  | .number n => by rw [canonicalJson, sorted]
  | .string s => by rw [canonicalJson, sorted]
  | .array items => by rw [canonicalJson, sorted, print, canonicalItems_eq items]
  | .object entries => by
    rw [canonicalJson, sorted, print, printEntries_eq, canonicalEntries_eq entries,
      ← map_sortByKey, List.map_map]
    rfl

theorem canonicalItems_eq : ∀ items : List Value,
    canonicalItems items = printItems (sortedItems items)
  | [] => rfl
  | item :: items => by
    rw [canonicalItems, sortedItems, printItems, canonicalJson_eq item, canonicalItems_eq items]

theorem canonicalEntries_eq : ∀ entries : List (Units × Value),
    canonicalEntries entries =
      (sortedEntries entries).map fun entry => (entry.1, print entry.2)
  | [] => rfl
  | (key, value) :: entries => by
    rw [canonicalEntries, sortedEntries]
    split
    · exact canonicalEntries_eq entries
    · rw [List.map_cons, canonicalJson_eq value, canonicalEntries_eq entries]
end

/-- **`canonicalJson` is injective up to the order of object keys**, and does
not depend on that order. -/
theorem canonicalJson_iff {v w : Value} (hv : isJson v = true) (hw : isJson w = true) :
    canonicalJson v = canonicalJson w ↔ SameButOrder v w := by
  rw [canonicalJson_eq, canonicalJson_eq, print_sorted_iff hv hw]

/-! ## Events -/

/-- An event as it is read back from its row: `data` is what its JSON column
holds. -/
structure AuditEvent where
  id : Units
  type : Units
  taskId : Option Units
  occurredAt : Units
  data : List (Units × Value)
  data_json : isJson (.object data) = true

/-- The same event, up to the order of keys in its data. -/
structure SameEvent (e f : AuditEvent) : Prop where
  id : e.id = f.id
  type : e.type = f.type
  taskId : e.taskId = f.taskId
  occurredAt : e.occurredAt = f.occurredAt
  data : SameButOrder (.object e.data) (.object f.data)

def auditPayload (event : AuditEvent) : Value :=
  .object [
    (ascii "id", .string event.id),
    (ascii "type", .string event.type),
    (ascii "taskId", match event.taskId with | some taskId => .string taskId | none => .null),
    (ascii "occurredAt", .string event.occurredAt),
    (ascii "data", .object event.data)]

def hashAuditPayload (event : AuditEvent) : Units := sha256Hex (canonicalJson (auditPayload event))

def chainText (previousHash payloadHash : Units) : Units :=
  previousHash ++ colonUnit :: payloadHash

def chainHash (previousHash payloadHash : Units) : Units :=
  sha256Hex (chainText previousHash payloadHash)

theorem auditPayload_json (event : AuditEvent) : isJson (auditPayload event) = true := by
  have hd := event.data_json
  cases ht : event.taskId <;>
    simp only [auditPayload, ht, isJson, entriesJson, Bool.true_and, Bool.and_true,
      Bool.and_eq_true, decide_eq_true_eq, List.map_cons, List.map_nil] at hd ⊢ <;>
    exact ⟨hd, by decide⟩

theorem sorted_auditPayload (event : AuditEvent) :
    sorted (auditPayload event) = .object [
      (ascii "data", sorted (.object event.data)),
      (ascii "id", .string event.id),
      (ascii "occurredAt", .string event.occurredAt),
      (ascii "taskId", match event.taskId with | some taskId => .string taskId | none => .null),
      (ascii "type", .string event.type)] := by
  unfold auditPayload
  cases event.taskId <;> rfl

/-- **Two events are hashed as one text exactly when they are the same
event.** -/
theorem canonicalPayload_iff (e f : AuditEvent) :
    canonicalJson (auditPayload e) = canonicalJson (auditPayload f) ↔ SameEvent e f := by
  rw [canonicalJson_iff (auditPayload_json e) (auditPayload_json f)]
  constructor
  · intro h
    have hs := (h.sorted_eq (auditPayload_json e)).2
    rw [sorted_auditPayload, sorted_auditPayload] at hs
    simp only [Value.object.injEq, List.cons.injEq, Prod.mk.injEq, true_and, and_true,
      Value.string.injEq] at hs
    obtain ⟨hdata, hid, hat, htask, htype⟩ := hs
    refine ⟨hid, htype, ?_, hat, ?_⟩
    · cases he : e.taskId <;> cases hf : f.taskId <;> simp_all
    · have he := sameButOrder_sorted _ e.data_json
      rw [hdata] at he
      exact he.trans (sameButOrder_sorted _ f.data_json).symm
  · intro h
    have hdata := SameButOrder.entry [(ascii "id", .string e.id), (ascii "type", .string e.type),
      (ascii "taskId", match e.taskId with | some taskId => .string taskId | none => .null),
      (ascii "occurredAt", .string e.occurredAt)] [] (ascii "data") h.data
    have hpayload : auditPayload f = .object ([(ascii "id", .string e.id),
        (ascii "type", .string e.type),
        (ascii "taskId", match e.taskId with | some taskId => .string taskId | none => .null),
        (ascii "occurredAt", .string e.occurredAt)] ++ [(ascii "data", .object f.data)]) := by
      rw [auditPayload, ← h.id, ← h.type, ← h.taskId, ← h.occurredAt]
      rfl
    rw [hpayload]
    exact hdata

/-! ## The chain -/

structure ChainedAuditEvent where
  event : AuditEvent
  sequence : Nat
  payloadHash : Units
  previousHash : Units
  chainHash : Units

inductive AuditChainVerification where
  | valid (events : Nat) (archivedEvents attestedCheckpoints : Option Nat)
  | broken (events brokenAt : Nat) (reason : String)
  deriving DecidableEq, Repr

def AuditChainVerification.isValid : AuditChainVerification → Bool
  | .valid .. => true
  | .broken .. => false

/-- The loop of `verifyAuditChain`, with `events` the number of entries it was
given. -/
def verifyEntries (events : Nat) : Units → List ChainedAuditEvent → AuditChainVerification
  | _, [] => .valid events none none
  | previousHash, entry :: entries =>
    if entry.previousHash ≠ previousHash then
      .broken events entry.sequence
        ("The recorded previous hash does not match the preceding event; " ++
          "an event was removed, reordered, or inserted")
    else
      let payloadHash := hashAuditPayload entry.event
      if payloadHash ≠ entry.payloadHash then
        .broken events entry.sequence
          "The event contents no longer match the recorded payload hash"
      else if Persistence.chainHash entry.previousHash payloadHash ≠ entry.chainHash then
        .broken events entry.sequence "The recorded chain hash is not derived from this event"
      else verifyEntries events entry.chainHash entries

/-- Verifies a run of events that follows on from `startHash`. -/
def verifyAuditChain (entries : List ChainedAuditEvent) (startHash : Units) :
    AuditChainVerification :=
  verifyEntries entries.length startHash entries

/-- The event links to what precedes it, and its hashes are those of its
contents. -/
structure Checked (previousHash : Units) (entry : ChainedAuditEvent) : Prop where
  previous : entry.previousHash = previousHash
  payload : hashAuditPayload entry.event = entry.payloadHash
  chain : Persistence.chainHash entry.previousHash (hashAuditPayload entry.event) = entry.chainHash

instance (previousHash : Units) (entry : ChainedAuditEvent) :
    Decidable (Checked previousHash entry) :=
  decidable_of_iff (entry.previousHash = previousHash ∧
      hashAuditPayload entry.event = entry.payloadHash ∧
      Persistence.chainHash entry.previousHash (hashAuditPayload entry.event) = entry.chainHash)
    ⟨fun h => ⟨h.1, h.2.1, h.2.2⟩, fun h => ⟨h.previous, h.payload, h.chain⟩⟩

def Linked : Units → List ChainedAuditEvent → Prop
  | _, [] => True
  | previousHash, entry :: entries => Checked previousHash entry ∧ Linked entry.chainHash entries

/-- The hash the event at `i` has to follow. -/
def hashAt : Units → List ChainedAuditEvent → Nat → Units
  | startHash, _, 0 => startHash
  | startHash, [], _ + 1 => startHash
  | _, entry :: entries, i + 1 => hashAt entry.chainHash entries i

theorem verifyEntries_checked {events : Nat} {previousHash : Units} {entry : ChainedAuditEvent}
    (h : Checked previousHash entry) (entries : List ChainedAuditEvent) :
    verifyEntries events previousHash (entry :: entries) =
      verifyEntries events entry.chainHash entries := by
  simp only [verifyEntries]
  rw [if_neg (not_not.mpr h.previous), if_neg (not_not.mpr h.payload),
    if_neg (not_not.mpr h.chain)]

theorem verifyEntries_unchecked (events : Nat) {previousHash : Units} {entry : ChainedAuditEvent}
    (h : ¬Checked previousHash entry) (entries : List ChainedAuditEvent) :
    ∃ reason, verifyEntries events previousHash (entry :: entries) =
      .broken events entry.sequence reason := by
  simp only [verifyEntries]
  split_ifs with h₁ h₂ h₃
  · exact ⟨_, rfl⟩
  · exact ⟨_, rfl⟩
  · exact ⟨_, rfl⟩
  · exact absurd ⟨not_not.mp h₁, not_not.mp h₂, not_not.mp h₃⟩ h

/-- **A chain verifies exactly when every event links to the one before.** -/
theorem verifyEntries_valid_iff (events : Nat) (startHash : Units)
    (entries : List ChainedAuditEvent) :
    (verifyEntries events startHash entries).isValid = true ↔ Linked startHash entries := by
  induction entries generalizing startHash with
  | nil => exact iff_of_true rfl trivial
  | cons entry entries ih =>
    by_cases h : Checked startHash entry
    · rw [verifyEntries_checked h, ih]
      exact ⟨fun hl => ⟨h, hl⟩, fun hl => hl.2⟩
    · obtain ⟨reason, hr⟩ := verifyEntries_unchecked events h entries
      rw [hr]
      exact iff_of_false (by simp [AuditChainVerification.isValid]) fun hl => h hl.1

theorem linked_append (startHash : Units) (entries rest : List ChainedAuditEvent) :
    Linked startHash (entries ++ rest) ↔
      Linked startHash entries ∧ Linked (hashAt startHash entries entries.length) rest := by
  induction entries generalizing startHash with
  | nil => exact ⟨fun h => ⟨trivial, h⟩, fun h => h.2⟩
  | cons entry entries ih => exact (and_congr_right fun _ => ih entry.chainHash).trans and_assoc.symm

theorem Linked.at {startHash : Units} {entries : List ChainedAuditEvent} {i : Nat}
    {entry : ChainedAuditEvent} (h : Linked startHash entries) (hi : entries[i]? = some entry) :
    Checked (hashAt startHash entries i) entry ∧
      hashAt startHash entries (i + 1) = entry.chainHash := by
  induction entries generalizing startHash i with
  | nil => cases hi
  | cons first entries ih =>
    cases i with
    | zero =>
      obtain rfl := Option.some.inj hi
      exact ⟨h.1, by cases entries <;> rfl⟩
    | succ i => exact ih h.2 (by simpa using hi)

theorem verifyEntries_broken {events : Nat} {startHash : Units}
    {entries : List ChainedAuditEvent} {i : Nat} {entry : ChainedAuditEvent}
    (hi : entries[i]? = some entry)
    (hbefore : ∀ j < i, ∀ earlier, entries[j]? = some earlier →
      Checked (hashAt startHash entries j) earlier)
    (hbroken : ¬Checked (hashAt startHash entries i) entry) :
    ∃ reason, verifyEntries events startHash entries =
      .broken events entry.sequence reason := by
  induction entries generalizing startHash i with
  | nil => cases hi
  | cons first entries ih =>
    cases i with
    | zero =>
      obtain rfl := Option.some.inj hi
      exact verifyEntries_unchecked events hbroken entries
    | succ i =>
      have hfirst : Checked startHash first := hbefore 0 (by omega) first rfl
      rw [verifyEntries_checked hfirst]
      exact ih (by simpa using hi)
        (fun j hj earlier he => hbefore (j + 1) (by omega) earlier (by simpa using he)) hbroken

/-! ## Alterations -/

def hashedTexts (entries : List ChainedAuditEvent) : List Units :=
  entries.flatMap fun entry =>
    [canonicalJson (auditPayload entry.event),
      chainText entry.previousHash (hashAuditPayload entry.event)]

/-- No two of the texts have one digest, and none has the digest that stands
for the empty history. -/
structure NoCollisions (texts : List Units) : Prop where
  apart : ∀ s ∈ texts, ∀ t ∈ texts, sha256Hex s = sha256Hex t → s = t
  genesis : ∀ s ∈ texts, sha256Hex s ≠ GENESIS_HASH

theorem payload_mem {entries : List ChainedAuditEvent} {entry : ChainedAuditEvent}
    (h : entry ∈ entries) : canonicalJson (auditPayload entry.event) ∈ hashedTexts entries :=
  List.mem_flatMap.mpr ⟨entry, h, List.mem_cons_self⟩

theorem chain_mem {entries : List ChainedAuditEvent} {entry : ChainedAuditEvent}
    (h : entry ∈ entries) :
    chainText entry.previousHash (hashAuditPayload entry.event) ∈ hashedTexts entries :=
  List.mem_flatMap.mpr ⟨entry, h, List.mem_cons_of_mem _ List.mem_cons_self⟩

theorem chainText_inj {p p' : Units} {e e' : AuditEvent}
    (h : chainText p (hashAuditPayload e) = chainText p' (hashAuditPayload e')) :
    p = p' ∧ hashAuditPayload e = hashAuditPayload e' := by
  obtain ⟨hp, hrest⟩ := List.append_inj' h (by simp [hashAuditPayload, sha256Hex_length])
  exact ⟨hp, (List.cons.inj hrest).2⟩

theorem Linked.hash_ne_genesis {entries : List ChainedAuditEvent} {i : Nat}
    {entry : ChainedAuditEvent} {texts : List Units} (h : Linked GENESIS_HASH entries)
    (hc : NoCollisions texts) (ht : ∀ t ∈ hashedTexts entries, t ∈ texts)
    (hi : entries[i]? = some entry) : entry.chainHash ≠ GENESIS_HASH := by
  rw [← (h.at hi).1.chain]
  exact hc.genesis _ (ht _ (chain_mem (List.mem_of_getElem? hi)))

/-- **The hashes a chain goes through are all different.** -/
theorem Linked.hashAt_inj {entries : List ChainedAuditEvent} {texts : List Units}
    (h : Linked GENESIS_HASH entries) (hc : NoCollisions texts)
    (ht : ∀ t ∈ hashedTexts entries, t ∈ texts) {i j : Nat} (hi : i ≤ entries.length)
    (hj : j ≤ entries.length)
    (he : hashAt GENESIS_HASH entries i = hashAt GENESIS_HASH entries j) : i = j := by
  have start : hashAt GENESIS_HASH entries 0 = GENESIS_HASH := by cases entries <;> rfl
  have next {i : Nat} (hi : i + 1 ≤ entries.length) :
      ∃ entry, entries[i]? = some entry ∧
        hashAt GENESIS_HASH entries (i + 1) = entry.chainHash :=
    ⟨entries[i], List.getElem?_eq_getElem hi, (h.at (List.getElem?_eq_getElem hi)).2⟩
  induction i generalizing j with
  | zero =>
    cases j with
    | zero => rfl
    | succ j =>
      obtain ⟨entry, hentry, hn⟩ := next hj
      rw [start, hn] at he
      exact absurd he.symm (h.hash_ne_genesis hc ht hentry)
  | succ i ih =>
    obtain ⟨entry, hentry, hn⟩ := next hi
    cases j with
    | zero =>
      rw [start, hn] at he
      exact absurd he (h.hash_ne_genesis hc ht hentry)
    | succ j =>
      obtain ⟨entry', hentry', hn'⟩ := next hj
      have hc₁ := (h.at hentry).1
      have hc₂ := (h.at hentry').1
      rw [hn, hn', ← hc₁.chain, ← hc₂.chain] at he
      have htext := hc.apart _ (ht _ (chain_mem (List.mem_of_getElem? hentry))) _
        (ht _ (chain_mem (List.mem_of_getElem? hentry'))) he
      have hprevious := (chainText_inj htext).1
      rw [hc₁.previous, hc₂.previous] at hprevious
      rw [ih (by omega) (by omega) hprevious]

/-- The same event with the same hashes. -/
structure SameEntry (x y : ChainedAuditEvent) : Prop where
  event : SameEvent x.event y.event
  payloadHash : x.payloadHash = y.payloadHash
  previousHash : x.previousHash = y.previousHash
  chainHash : x.chainHash = y.chainHash

/-- Both lists have the same event at `i`. -/
def SameAt (xs ys : List ChainedAuditEvent) (i : Nat) : Prop :=
  ∃ x y, xs[i]? = some x ∧ ys[i]? = some y ∧ SameEntry x y

/-- The hashes of `y` were not computed anew: if its chain hash is right for its
contents, then it is one the log already had. -/
def NotRecomputed (xs : List ChainedAuditEvent) (y : ChainedAuditEvent) : Prop :=
  Persistence.chainHash y.previousHash (hashAuditPayload y.event) = y.chainHash →
    ∃ x ∈ xs, x.chainHash = y.chainHash

/-- `y` stands at `i`, the first position where the lists differ. -/
structure FirstAltered (xs ys : List ChainedAuditEvent) (i : Nat) (y : ChainedAuditEvent) :
    Prop where
  at_i : ys[i]? = some y
  before : ∀ j < i, SameAt xs ys j
  altered : ¬SameAt xs ys i

theorem hashAuditPayload_eq {e f : AuditEvent} (h : SameEvent e f) :
    hashAuditPayload e = hashAuditPayload f :=
  congrArg sha256Hex ((canonicalPayload_iff e f).mpr h)

theorem hashAt_same {xs ys : List ChainedAuditEvent} {startHash : Units} {i : Nat}
    (h : ∀ j < i, SameAt xs ys j) : hashAt startHash xs i = hashAt startHash ys i := by
  induction i generalizing xs ys startHash with
  | zero => cases xs <;> cases ys <;> rfl
  | succ i ih =>
    obtain ⟨x, y, hx, hy, hs⟩ := h 0 (by omega)
    cases xs with
    | nil => cases hx
    | cons x' xs =>
      cases ys with
      | nil => cases hy
      | cons y' ys =>
        obtain rfl := Option.some.inj hx
        obtain rfl := Option.some.inj hy
        show hashAt x'.chainHash xs i = hashAt y'.chainHash ys i
        rw [hs.chainHash]
        exact ih fun j hj => h (j + 1) (by omega)

/-- **An altered chain is broken at the first altered position.** -/
theorem altered_detected {xs ys : List ChainedAuditEvent} {i : Nat} {y : ChainedAuditEvent}
    (hx : Linked GENESIS_HASH xs) (hc : NoCollisions (hashedTexts xs ++ hashedTexts ys))
    (hn : NotRecomputed xs y) (h : FirstAltered xs ys i y) :
    ∃ reason, verifyAuditChain ys GENESIS_HASH = .broken ys.length y.sequence reason := by
  have htx : ∀ t ∈ hashedTexts xs, t ∈ hashedTexts xs ++ hashedTexts ys :=
    fun t ht => List.mem_append_left _ ht
  have hy := List.mem_of_getElem? h.at_i
  apply verifyEntries_broken h.at_i
  · intro j hj earlier he
    obtain ⟨x, y', hxj, hyj, hs⟩ := h.before j hj
    obtain rfl := Option.some.inj (he.symm.trans hyj)
    have hcheck := (hx.at hxj).1
    rw [← hashAt_same fun k hk => h.before k (by omega)]
    refine ⟨hs.previousHash ▸ hcheck.previous, ?_, ?_⟩
    · rw [← hashAuditPayload_eq hs.event, hcheck.payload, hs.payloadHash]
    · rw [← hashAuditPayload_eq hs.event, ← hs.previousHash, hcheck.chain, hs.chainHash]
  · intro hcheck
    obtain ⟨x, hxm, hchain⟩ := hn hcheck.chain
    obtain ⟨j, hj, rfl⟩ := List.mem_iff_getElem.mp hxm
    have hxj := List.getElem?_eq_getElem hj
    have hcheckx := (hx.at hxj).1
    have hdigest := hcheckx.chain.trans (hchain.trans hcheck.chain.symm)
    have htext := hc.apart _ (List.mem_append_left _ (chain_mem hxm)) _
      (List.mem_append_right _ (chain_mem hy)) hdigest
    obtain ⟨hprevious, hpayload⟩ := chainText_inj htext
    have hi : i ≤ xs.length := by
      by_contra hlt
      obtain ⟨x, _, hx, -⟩ := h.before xs.length (by omega)
      rw [List.getElem?_eq_none (le_refl _)] at hx
      cases hx
    have hij : j = i := by
      apply hx.hashAt_inj hc htx (by omega) hi
      rw [← hcheckx.previous, hprevious, hcheck.previous, hashAt_same h.before]
    subst hij
    apply h.altered
    refine ⟨_, y, hxj, h.at_i, ?_, ?_, hprevious, hchain⟩
    · exact (canonicalPayload_iff _ _).mp (hc.apart _ (List.mem_append_left _ (payload_mem hxm)) _
        (List.mem_append_right _ (payload_mem hy)) hpayload)
    · rw [← hcheckx.payload, ← hcheck.payload, hpayload]

/-- What can be done to a log without recomputing hashes. -/
inductive Altered (xs : List ChainedAuditEvent) : List ChainedAuditEvent → Prop
  /-- A hashed field of one event is changed. -/
  | edit (before after : List ChainedAuditEvent) (entry : ChainedAuditEvent) (event : AuditEvent)
      (hxs : xs = before ++ entry :: after) (hne : ¬SameEvent entry.event event) :
      Altered xs (before ++ { entry with event := event } :: after)
  /-- The events are put in another order. -/
  | reorder (ys : List ChainedAuditEvent) (hperm : ys.Perm xs) (hne : ys ≠ xs) : Altered xs ys
  /-- An event is inserted. -/
  | insert (before after : List ChainedAuditEvent) (entry : ChainedAuditEvent)
      (hxs : xs = before ++ after) (hn : NotRecomputed xs entry) :
      Altered xs (before ++ entry :: after)
  /-- Events are removed, not all of them from the end. -/
  | remove (ys : List ChainedAuditEvent) (hsub : ys.Sublist xs) (hne : ¬ys <+: xs) : Altered xs ys

theorem firstAltered_of_not_all {xs ys : List ChainedAuditEvent}
    (h : ¬∀ i < ys.length, SameAt xs ys i) : ∃ i y, FirstAltered xs ys i y := by
  classical
  have hex : ∃ i, i < ys.length ∧ ¬SameAt xs ys i := by simpa using h
  obtain ⟨hlt, hne⟩ := Nat.find_spec hex
  refine ⟨Nat.find hex, ys[Nat.find hex], List.getElem?_eq_getElem hlt, ?_, hne⟩
  intro j hj
  by_contra hj'
  exact Nat.find_min hex hj ⟨by omega, hj'⟩

theorem notRecomputed_mem {xs : List ChainedAuditEvent} {y : ChainedAuditEvent} (h : y ∈ xs) :
    NotRecomputed xs y := fun _ => ⟨y, h, rfl⟩

theorem Linked.eq_of_chainHash {xs : List ChainedAuditEvent} {texts : List Units}
    (h : Linked GENESIS_HASH xs) (hc : NoCollisions texts)
    (ht : ∀ t ∈ hashedTexts xs, t ∈ texts) {x y : ChainedAuditEvent} (hx : x ∈ xs) (hy : y ∈ xs)
    (he : x.chainHash = y.chainHash) : x = y := by
  obtain ⟨i, hi, rfl⟩ := List.mem_iff_getElem.mp hx
  obtain ⟨j, hj, rfl⟩ := List.mem_iff_getElem.mp hy
  have hi' := (h.at (List.getElem?_eq_getElem hi)).2
  have hj' := (h.at (List.getElem?_eq_getElem hj)).2
  rw [← hi', ← hj'] at he
  have := h.hashAt_inj hc ht (by omega) (by omega) he
  simp only [Nat.add_right_cancel_iff] at this
  subst this
  rfl

theorem prefix_of_same {xs ys : List ChainedAuditEvent} {texts : List Units}
    (h : Linked GENESIS_HASH xs) (hc : NoCollisions texts)
    (ht : ∀ t ∈ hashedTexts xs, t ∈ texts) (hmem : ∀ y ∈ ys, y ∈ xs)
    (hs : ∀ i < ys.length, SameAt xs ys i) : ys <+: xs := by
  rw [List.prefix_iff_getElem?]
  intro i hi
  obtain ⟨x, y, hx, hy, hxy⟩ := hs i hi
  rw [List.getElem?_eq_getElem hi] at hy
  obtain rfl := Option.some.inj hy
  rw [hx, h.eq_of_chainHash hc ht (List.mem_of_getElem? hx) (hmem _ (List.getElem_mem hi))
    hxy.chainHash]

/-- **Tampering is detected.** -/
theorem Altered.detected {xs ys : List ChainedAuditEvent} (h : Altered xs ys)
    (hx : Linked GENESIS_HASH xs) (hc : NoCollisions (hashedTexts xs ++ hashedTexts ys)) :
    ∃ i y reason, FirstAltered xs ys i y ∧
      verifyAuditChain ys GENESIS_HASH = .broken ys.length y.sequence reason := by
  have htx : ∀ t ∈ hashedTexts xs, t ∈ hashedTexts xs ++ hashedTexts ys :=
    fun t ht => List.mem_append_left _ ht
  have hdiffers : ¬∀ i < ys.length, SameAt xs ys i := by
    intro hs
    cases h with
    | edit before after entry event hxs hne =>
      obtain ⟨x, y, hxi, hyi, hxy⟩ := hs before.length (by simp)
      subst hxs
      simp only [List.getElem?_append_right (le_refl _),
        Nat.sub_self, List.getElem?_cons_zero] at hxi hyi
      obtain rfl := Option.some.inj hxi
      obtain rfl := Option.some.inj hyi
      exact hne hxy.event
    | reorder _ hperm hne =>
      have hp := prefix_of_same hx hc htx (fun y hy => hperm.subset hy) hs
      exact hne (hp.eq_of_length hperm.length_eq)
    | insert before after entry hxs hn =>
      obtain ⟨x, y, hxi, -⟩ := hs xs.length (by simp [hxs])
      rw [List.getElem?_eq_none (le_refl _)] at hxi
      cases hxi
    | remove _ hsub hne =>
      exact hne (prefix_of_same hx hc htx (fun y hy => hsub.subset hy) hs)
  obtain ⟨i, y, hfirst⟩ := firstAltered_of_not_all hdiffers
  have hn : NotRecomputed xs y := by
    have hy := List.mem_of_getElem? hfirst.at_i
    cases h with
    | edit before after entry event hxs hne =>
      subst hxs
      rcases List.mem_append.mp hy with hy | hy
      · exact notRecomputed_mem (List.mem_append_left _ hy)
      · rcases List.mem_cons.mp hy with rfl | hy
        · exact fun _ => ⟨entry, by simp, rfl⟩
        · exact notRecomputed_mem (List.mem_append_right _ (List.mem_cons_of_mem _ hy))
    | reorder _ hperm hne => exact notRecomputed_mem (hperm.subset hy)
    | insert before after entry hxs hn =>
      subst hxs
      rcases List.mem_append.mp hy with hy | hy
      · exact notRecomputed_mem (List.mem_append_left _ hy)
      · rcases List.mem_cons.mp hy with rfl | hy
        · exact hn
        · exact notRecomputed_mem (List.mem_append_right _ hy)
    | remove _ hsub hne => exact notRecomputed_mem (hsub.subset hy)
  obtain ⟨reason, hr⟩ := altered_detected hx hc hn hfirst
  exact ⟨i, y, reason, hfirst, hr⟩

/-! ## Archives -/

structure AuditCheckpoint where
  id : Units
  /-- Highest sequence this checkpoint covers. -/
  throughSequence : Nat
  /-- Chain hash at `throughSequence`; the live chain verifies from here. -/
  chainHash : Units
  /-- Digest over the archived segment's payload hashes, in sequence order. -/
  segmentDigest : Units
  events : Nat
  createdAt : Units

/-- `payloadHashes.join(":")`, after the first. -/
def colonRest (hashes : List Units) : Units := hashes.flatMap (colonUnit :: ·)

/-- Folds a segment's payload hashes into one digest. -/
def segmentDigest : List Units → Units
  | [] => sha256Hex (ascii "segment:")
  | first :: rest => sha256Hex (ascii "segment:" ++ first ++ colonRest rest)

structure ArchivedSegment where
  checkpoint : AuditCheckpoint
  /-- Absent when the operator dropped the rows. -/
  entries : Option (List ChainedAuditEvent)

/-- The loop of `verifyArchivedChain`, with what it has counted so far. -/
def verifySegments (live : List ChainedAuditEvent) :
    List ArchivedSegment → Units → Nat → Nat → AuditChainVerification
  | [], previousHash, archivedEvents, attestedCheckpoints =>
    match verifyAuditChain live previousHash with
    | .broken events brokenAt reason => .broken events brokenAt reason
    | .valid events _ _ =>
      .valid events (if archivedEvents > 0 then some archivedEvents else none)
        (if attestedCheckpoints > 0 then some attestedCheckpoints else none)
  | ⟨checkpoint, none⟩ :: segments, _, archivedEvents, attestedCheckpoints =>
    verifySegments live segments checkpoint.chainHash archivedEvents (attestedCheckpoints + 1)
  | ⟨checkpoint, some entries⟩ :: segments, previousHash, archivedEvents, attestedCheckpoints =>
    match entries.getLast? with
    | none =>
      verifySegments live segments checkpoint.chainHash archivedEvents (attestedCheckpoints + 1)
    | some last =>
      match verifyAuditChain entries previousHash with
      | .broken events brokenAt reason => .broken (events + live.length) brokenAt reason
      | .valid .. =>
        if last.chainHash ≠ checkpoint.chainHash then
          .broken (entries.length + live.length) checkpoint.throughSequence
            "The archived segment does not end on the chain hash its checkpoint recorded"
        else if segmentDigest (entries.map (·.payloadHash)) ≠ checkpoint.segmentDigest then
          .broken (entries.length + live.length) checkpoint.throughSequence
            ("The archived segment no longer reproduces its checkpoint digest; " ++
              "events were removed, reordered, or edited after archiving")
        else
          verifySegments live segments checkpoint.chainHash (archivedEvents + entries.length)
            attestedCheckpoints

def SegmentLe (left right : ArchivedSegment) : Prop :=
  left.checkpoint.throughSequence ≤ right.checkpoint.throughSequence

instance : DecidableRel SegmentLe := fun left right =>
  inferInstanceAs (Decidable (left.checkpoint.throughSequence ≤ right.checkpoint.throughSequence))

/-- Verifies a compacted log: archived segments first, then the live chain. -/
def verifyArchivedChain (segments : List ArchivedSegment) (live : List ChainedAuditEvent) :
    AuditChainVerification :=
  verifySegments live (segments.insertionSort SegmentLe) GENESIS_HASH 0 0

/-- The checkpoint `archiveAuditEvents` writes for a segment that ends with
`last`. -/
def checkpointOf (id createdAt : Units) (entries : List ChainedAuditEvent)
    (last : ChainedAuditEvent) : AuditCheckpoint where
  id := id
  throughSequence := last.sequence
  chainHash := last.chainHash
  segmentDigest := segmentDigest (entries.map (·.payloadHash))
  events := entries.length
  createdAt := createdAt

/-- A part of the chain moved to the archive: nothing is written for an empty
one. -/
def archiveSegment (id createdAt : Units) (entries : List ChainedAuditEvent) :
    Option ArchivedSegment :=
  entries.getLast?.map fun last => ⟨checkpointOf id createdAt entries last, some entries⟩

theorem Linked.last {startHash : Units} {entries : List ChainedAuditEvent}
    {last : ChainedAuditEvent} (h : Linked startHash entries)
    (hl : entries.getLast? = some last) :
    hashAt startHash entries entries.length = last.chainHash := by
  have hne : entries ≠ [] := by
    rintro rfl
    cases hl
  have hlen := List.length_pos_of_ne_nil hne
  rw [List.getLast?_eq_getElem?] at hl
  have := (h.at hl).2
  rwa [Nat.sub_add_cancel hlen] at this

/-- **A segment with the checkpoint written for it verifies exactly when its
events link, and hands the last hash on.** -/
theorem verifySegments_archived {live : List ChainedAuditEvent} {segment : ArchivedSegment}
    {entries : List ChainedAuditEvent} {id createdAt : Units}
    (hs : archiveSegment id createdAt entries = some segment) (segments : List ArchivedSegment)
    (previousHash : Units) (archived attested : Nat) :
    (verifySegments live (segment :: segments) previousHash archived attested).isValid = true ↔
      Linked previousHash entries ∧
        (verifySegments live segments (hashAt previousHash entries entries.length)
          (archived + entries.length) attested).isValid = true := by
  obtain ⟨last, hl, rfl⟩ := Option.map_eq_some_iff.mp hs
  have hvalid := verifyEntries_valid_iff entries.length previousHash entries
  simp only [verifySegments, hl]
  cases hv : verifyAuditChain entries previousHash with
  | broken events brokenAt reason =>
    rw [show verifyEntries entries.length previousHash entries = _ from hv] at hvalid
    refine iff_of_false (by simp [AuditChainVerification.isValid]) fun h => ?_
    exact absurd (hvalid.mpr h.1) (by simp [AuditChainVerification.isValid])
  | valid events archivedEvents attestedCheckpoints =>
    rw [show verifyEntries entries.length previousHash entries = _ from hv] at hvalid
    have hlinked := hvalid.mp rfl
    simp only [checkpointOf, ne_eq, not_true_eq_false, if_false]
    rw [hlinked.last hl]
    exact ⟨fun h => ⟨hlinked, h⟩, fun h => h.2⟩

variable {parts : List (Units × Units × List ChainedAuditEvent)}

/-- **Archiving keeps the verdict.** Parts of a chain archived one after another
verify, with what is still live, exactly when the whole chain does. -/
theorem verifySegments_valid_iff {live : List ChainedAuditEvent} {segments : List ArchivedSegment}
    (hs : parts.mapM (fun part => archiveSegment part.1 part.2.1 part.2.2) = some segments)
    (previousHash : Units) (archived attested : Nat) :
    (verifySegments live segments previousHash archived attested).isValid = true ↔
      Linked previousHash (parts.flatMap (·.2.2) ++ live) := by
  induction parts generalizing segments previousHash archived with
  | nil =>
    rw [List.mapM_nil] at hs
    obtain rfl : [] = segments := Option.some.inj hs
    have hvalid := verifyEntries_valid_iff live.length previousHash live
    rw [List.flatMap_nil, List.nil_append, ← hvalid]
    show (verifySegments live [] previousHash archived attested).isValid = true ↔
      (verifyAuditChain live previousHash).isValid = true
    simp only [verifySegments]
    cases verifyAuditChain live previousHash <;> rfl
  | cons part parts ih =>
    rw [List.mapM_cons] at hs
    obtain ⟨segment, hsegment, hs⟩ := Option.bind_eq_some_iff.mp hs
    obtain ⟨rest, hrest, hs⟩ := Option.bind_eq_some_iff.mp hs
    obtain rfl : segment :: rest = segments := Option.some.inj hs
    rw [verifySegments_archived hsegment, ih hrest, List.flatMap_cons, List.append_assoc,
      linked_append previousHash part.2.2]

theorem archived_valid_iff (live : List ChainedAuditEvent) {segments : List ArchivedSegment}
    (hs : parts.mapM (fun part => archiveSegment part.1 part.2.1 part.2.2) = some segments)
    (hsorted : segments.Pairwise SegmentLe) : (verifyArchivedChain segments live).isValid = true ↔
      (verifyAuditChain (parts.flatMap (·.2.2) ++ live) GENESIS_HASH).isValid = true := by
  unfold verifyArchivedChain verifyAuditChain
  rw [hsorted.insertionSort_eq, verifySegments_valid_iff hs, verifyEntries_valid_iff]

/-! ## Tamper evidence -/

/-- The row `appendAudit` inserts. -/
def appendedEvent (previousHash : Units) (sequence : Nat) (event : AuditEvent) :
    ChainedAuditEvent where
  event := event
  sequence := sequence
  payloadHash := hashAuditPayload event
  previousHash := previousHash
  chainHash := chainHash previousHash (hashAuditPayload event)

theorem appendedEvent_linked {startHash : Units} (entries : List ChainedAuditEvent)
    (h : Linked startHash entries) (sequence : Nat) (event : AuditEvent) :
    Linked startHash
      (entries ++ [appendedEvent (hashAt startHash entries entries.length) sequence event]) := by
  rw [linked_append]
  exact ⟨h, ⟨rfl, rfl, rfl⟩, trivial⟩

def submitted : AuditEvent :=
  ⟨ascii "a1", ascii "task_submitted", none, ascii "2026-01-01", [(ascii "n", .null)], by decide⟩

def resubmitted : AuditEvent :=
  ⟨ascii "a1", ascii "task_submitted", none, ascii "2026-01-01", [(ascii "n", .bool true)],
    by decide⟩

def submittedEntry : ChainedAuditEvent := appendedEvent GENESIS_HASH 1 submitted

theorem tampered_texts_apart :
    NoCollisions (hashedTexts [submittedEntry] ++
      hashedTexts [{ submittedEntry with event := resubmitted }]) where
  apart := by
    apply List.inj_on_of_nodup_map
    decide +kernel
  genesis := by decide +kernel

end AgenticGit.Persistence
