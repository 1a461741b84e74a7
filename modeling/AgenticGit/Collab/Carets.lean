import AgenticGit.Lib.Carets
import AgenticGit.Collab.Room
import AgenticGit.Collab.History
import AgenticGit.Collab.Canonical

/- Carets that are carried across operations: one operation at a time, as `receive` of
   `room.ts` does for everybody but the sender, and through the composition of many, as
   `setSelection` does for a caret named at an old revision.

   Correspondence (TypeScript ↔ Lean):
     `transformPosition`                      ↔ `caret` of the operation's script
     `since(revision)`, then `transformSelection` ↔ `CollabDocument.since`,
       `transformPosition`
     `transformSelection` after each `receive`  ↔ `carried`

   What is proved:
     1. `transformPosition_eq`, `transformPosition_mono`, `transformPosition_le` — the loop
        is `caret`: positions stay in order and inside the text.
     2. `carets_agree_iff` — both paths lead to one place exactly when what comes first
        behind the caret in the end was not put in behind it on the way. The composition
        moves an insertion in front of the deletions next to it, so one that was made
        behind the caret ends up in front of it once everything in between is deleted. -/
namespace AgenticGit.Collab
open AgenticGit.EditScript AgenticGit.InFlight AgenticGit.Runtime

/-! ## transformPosition -/

theorem transformPositionLoop_neg (cs : List OperationComponent) {remaining : Int} (result : Int)
    (h : remaining < 0) : transformPositionLoop cs remaining result = result := by
  cases cs with
  | nil => rfl
  | cons c cs => simp only [transformPositionLoop, h, if_true]

theorem transformPositionLoop_eq {cs : List OperationComponent} (h : ∀ c ∈ cs, c.Proper)
    (remaining : Nat) (result : Int) :
    transformPositionLoop cs remaining result =
      result - remaining + caret (scriptOf cs) remaining := by
  induction cs generalizing remaining result with
  | nil =>
    simp only [transformPositionLoop, scriptOf_nil, caret]
    omega
  | cons c cs ih =>
    obtain ⟨hc, hcs⟩ := List.forall_mem_cons.mp h
    have hstart : ¬(remaining : Int) < 0 := by omega
    rw [scriptOf_cons]
    cases c with
    | string text =>
      simp only [transformPositionLoop, hstart, if_false, script_string, caret_puts, ih hcs]
      omega
    | number n =>
      have hn : n ≠ 0 := hc
      by_cases hpos : 0 < n
      · simp only [transformPositionLoop, hstart, if_false, gt_iff_lt, hpos, if_true,
          script_retain hpos, caret_keeps]
        split
        · rw [transformPositionLoop_neg _ _ (by omega)]
          omega
        · rw [show (remaining : Int) - n = ((remaining - n.toNat : Nat) : Int) by omega, ih hcs]
          omega
      · have hneg : n < 0 := by omega
        simp only [transformPositionLoop, hstart, gt_iff_lt, hpos, if_false, script_delete hneg,
          caret_drops]
        split
        · rw [transformPositionLoop_neg _ _ (by omega)]
          omega
        · rw [show (remaining : Int) + n = ((remaining - (-n).toNat : Nat) : Int) by omega,
            ih hcs]
          omega

/-- **The loop of `transformPosition` is `caret`.** -/
theorem transformPosition_eq {operation : TextOperation} (h : operation.WellFormed)
    (position : Nat) : transformPosition position operation = caret operation.script position := by
  rw [transformPosition, transformPositionLoop_eq h.proper, TextOperation.script]
  omega

theorem transformPosition_mono {operation : TextOperation} (h : operation.WellFormed)
    {p q : Nat} (hpq : p ≤ q) : transformPosition p operation ≤ transformPosition q operation := by
  rw [transformPosition_eq h, transformPosition_eq h]
  exact Int.ofNat_le.mpr (caret_mono _ hpq)

variable {before after : Text} {p : Nat} {entries : List TextOperation}

theorem transformPosition_le {operation : TextOperation} (h : Applies operation before after)
    (hp : p ≤ before.length) :
    0 ≤ transformPosition p operation ∧ transformPosition p operation ≤ after.length := by
  have hbase : p ≤ baseLen operation.script := by rw [act_base h.act]; exact hp
  have hle := caret_le hbase
  rw [← act_length h.act] at hle
  rw [transformPosition_eq h.wellFormed]
  omega

/-! ## The composition of many operations -/

theorem Leads.cons {before middle after : Text} {entry : TextOperation}
    (he : Applies entry before middle) (h : Leads middle entries after) :
    Leads before (entry :: entries) after :=
  Delivers.op he h

theorem leads_of_applied {text after : Text} (hw : ∀ entry ∈ entries, entry.WellFormed)
    (h : entries.foldlM applyOperation text = .ok after) : Leads text entries after := by
  induction entries generalizing text with
  | nil =>
    obtain rfl := Except.ok.inj h
    exact Leads.refl _
  | cons entry entries ih =>
    obtain ⟨he, hes⟩ := List.forall_mem_cons.mp hw
    rw [List.foldlM_cons] at h
    obtain ⟨middle, hm, h⟩ := except_bind_ok h
    have hbase : entry.baseLength = text.length := by
      unfold applyOperation at hm
      split at hm
      · cases hm
      · omega
    obtain ⟨middle', happ⟩ := Applies.of_base_length he hbase
    obtain rfl := Except.ok.inj (hm.symm.trans happ.apply)
    exact Leads.cons happ (ih hes h)

/-- Flags on the units of a text, carried through operations; what is inserted has none. -/
def flagsAfter (entries : List TextOperation) (flags : List Bool) : Option (List Bool) :=
  entries.foldlM (fun flags entry => act (blank false entry.script) flags) flags

theorem TextOperation.Built.normal {operation : TextOperation} (h : operation.Built) :
    Normal operation.script := h.canonical.normal

theorem compose_flags {f g : TextOperation} (hf : f.WellFormed) (hg : g.WellFormed)
    (h : f.targetLength = g.baseLength) :
    ∃ composed, composeOperations f g = .ok composed ∧ composed.Built ∧ ∀ flags : List Bool,
      act (blank false composed.script) flags =
        (act (blank false f.script) flags).bind (act (blank false g.script)) := by
  have hlen : targetLen f.script = baseLen g.script := by
    have ht := hf.target
    have hb := hg.base
    omega
  obtain ⟨cs, hcs⟩ := compose_total hlen
  obtain ⟨composed, he, -, heffect⟩ := composeLoop_effect .empty hf.proper hg.proper hcs
  have hbuilt := composeLoop_built tidy_empty he
  rw [OperationBuilder.empty_script, List.nil_append] at heffect
  refine ⟨composed, ?_, hbuilt, fun flags => ?_⟩
  · rw [composeOperations, if_neg (not_not.mpr h), he]
  · rw [act_blank_eq false hbuilt.normal heffect, act_compose (blank_compose false hcs)]

/-- Operations that lead from one text to another compose to one that carries flags as
they do one after the other. -/
theorem Leads.compose_flags {before middle after : Text} {entry : TextOperation}
    (he : Applies entry before middle) (hb : entry.Built) (hbuilt : ∀ entry ∈ entries, entry.Built)
    (h : Leads middle entries after) :
    ∃ operation, entries.foldlM composeOperations entry = .ok operation ∧ operation.Built ∧
      ∀ flags, act (blank false operation.script) flags = flagsAfter (entry :: entries) flags := by
  induction entries generalizing entry middle with
  | nil => exact ⟨entry, rfl, hb, fun flags => by simp [flagsAfter]⟩
  | cons next entries ih =>
    obtain ⟨hnb, hbuilt⟩ := List.forall_mem_cons.mp hbuilt
    obtain ⟨text, hn, h⟩ := h.head
    have hmeet : entry.targetLength = next.baseLength := by rw [he.target_length, hn.base_length]
    obtain ⟨both, hc, hboth, hflags⟩ := Collab.compose_flags he.wellFormed hn.wellFormed hmeet
    obtain ⟨both', hc', happ⟩ := composeOperations_spec he hn
    obtain rfl := Except.ok.inj (hc.symm.trans hc')
    obtain ⟨operation, ho, hob, hall⟩ := ih happ hboth hbuilt h
    refine ⟨operation, ?_, hob, fun flags => ?_⟩
    · rw [List.foldlM_cons, hc]
      exact ho
    · rw [hall flags]
      simp only [flagsAfter, List.foldlM_cons, hflags flags]
      cases act (blank false entry.script) flags <;> rfl

/-! ## The two paths -/

/-- A position carried across operations one after the other. -/
def carried (entries : List TextOperation) (position : Int) : Int :=
  entries.foldl transformPosition position

/-- The marks of a text's units about a caret, once the operations have been applied. -/
def marksAfter (entries : List TextOperation) (marks : List Mark) : List Mark :=
  entries.foldl (fun marks entry => mark entry.script marks false) marks

/-- What comes first behind a caret in the end, if anything, was there from the start: it
was not put in behind the caret on the way. -/
def NothingTypedNext (entries : List TextOperation) (position length : Nat) : Prop :=
  (marksAfter entries (placed position length)).find? (· != .front) ≠ some .typed

instance (entries : List TextOperation) (position length : Nat) :
    Decidable (NothingTypedNext entries position length) :=
  inferInstanceAs (Decidable (_ ≠ _))

/-- **Position by position**: the caret stays behind the units marked in front of it. -/
theorem marksAfter_front (h : Leads before entries after) {rest : List Mark}
    (hf : Mark.front ∉ rest) (hlength : p + rest.length = before.length) :
    ∃ (q : Nat) (rest' : List Mark), carried entries p = (q : Int) ∧
      marksAfter entries (List.replicate p .front ++ rest) = List.replicate q .front ++ rest' ∧
      Mark.front ∉ rest' := by
  induction entries generalizing before p rest with
  | nil => exact ⟨p, rest, rfl, rfl, hf⟩
  | cons entry entries ih =>
    obtain ⟨middle, he, h⟩ := h.head
    have hbase : baseLen entry.script = p + rest.length := by rw [act_base he.act, hlength]
    obtain ⟨rest', hmark, hf'⟩ := mark_front entry.script p hf hbase
    have hmarks : baseLen entry.script = (List.replicate p Mark.front ++ rest).length := by
      rw [hbase, List.length_append, List.length_replicate]
    have hlength' := length_mark false hmarks
    rw [hmark, List.length_append, List.length_replicate, ← act_length he.act] at hlength'
    obtain ⟨q, rest'', hq, hm, hf''⟩ := ih h hf' hlength'
    refine ⟨q, rest'', ?_, ?_, hf''⟩
    · rw [← hq, carried, List.foldl_cons, transformPosition_eq he.wellFormed]
      rfl
    · rw [← hm, ← hmark]
      rfl

/-- **All at once**: the units that were behind the caret from the start go where the
operations take them. -/
theorem flagsAfter_own (h : Leads before entries after) {marks : List Mark}
    (hlength : marks.length = before.length) : flagsAfter entries (marks.map Mark.isOwn) =
      some ((marksAfter entries marks).map Mark.isOwn) := by
  induction entries generalizing before marks with
  | nil => rfl
  | cons entry entries ih =>
    obtain ⟨middle, he, h⟩ := h.head
    have hbase : baseLen entry.script = marks.length := by rw [act_base he.act, hlength]
    have hlength' := length_mark false hbase
    rw [← act_length he.act] at hlength'
    rw [flagsAfter, List.foldlM_cons, mark_own false hbase]
    exact ih h hlength'

theorem placed_own {p n : Nat} :
    (placed p n).map Mark.isOwn = List.replicate p false ++ List.replicate (n - p) true := by
  rw [placed, List.map_append, List.map_replicate, List.map_replicate]
  rfl

/-- **The composition takes a caret in front of the first unit left behind it.** -/
theorem composed_position {operation : TextOperation} (h : Leads before entries after)
    (hb : operation.Built) (hbase : baseLen operation.script = before.length)
    (hflags : ∀ flags, flags.length = before.length →
      act (blank false operation.script) flags = flagsAfter entries flags) (hp : p ≤ before.length) :
    transformPosition p operation =
      (marksAfter entries (placed p before.length)).findIdx Mark.isOwn := by
  have hlength : (placed p before.length).length = before.length := by
    rw [placed, List.length_append, List.length_replicate, List.length_replicate]
    omega
  have hact := (hflags _ (by rw [List.length_map, hlength])).trans (flagsAfter_own h hlength)
  rw [placed_own] at hact
  rw [transformPosition_eq hb.wellFormed, caret_eq_ahead hb.normal,
    ahead_eq_findIdx (by omega) hact, List.findIdx_map]
  rfl

theorem identityOperation_built (length : Int) : (identityOperation length).Built :=
  build_built (retain_tidy tidy_empty length)

theorem since_flags {document : CollabDocument} {revision : Nat} {text : Text}
    {window : List TextOperation} (hlo : document.historyBase ≤ revision)
    (hhi : revision ≤ document.revision)
    (hwindow : document.history.drop (revision - document.historyBase) = window)
    (hbuilt : ∀ entry ∈ window, entry.Built) (hleads : Leads text window document.text) :
    ∃ catchUp, document.since revision = .ok (some catchUp) ∧ catchUp.Built ∧
      baseLen catchUp.script = text.length ∧ ∀ flags, flags.length = text.length →
        act (blank false catchUp.script) flags = flagsAfter window flags := by
  have hk : ((revision : Int) - document.historyBase).toNat = revision - document.historyBase := by
    omega
  unfold CollabDocument.since
  rw [if_neg (by omega), hk, hwindow]
  cases window with
  | nil =>
    obtain rfl := hleads.nil_eq
    have hscript : (identityOperation document.text.length).script =
        keeps document.text.length := by
      rw [identityOperation, OperationBuilder.build_script,
        OperationBuilder.retain_script _ (by omega), OperationBuilder.empty_script,
        List.nil_append, Int.toNat_natCast]
    refine ⟨_, rfl, identityOperation_built _, by rw [hscript, baseLen_keeps], fun flags hf => ?_⟩
    rw [hscript, blank_keeps, ← hf, act_keeps]
    rfl
  | cons entry entries =>
    obtain ⟨middle, he, hrest⟩ := hleads.head
    obtain ⟨heb, hesb⟩ := List.forall_mem_cons.mp hbuilt
    obtain ⟨operation, ho, hob, hflags⟩ := hrest.compose_flags he heb hesb
    obtain ⟨operation', ho', happ⟩ := Leads.compose he hrest
    obtain rfl := Except.ok.inj (ho.symm.trans ho')
    exact ⟨operation, by simp only [ho]; rfl, hob, act_base happ.act, fun flags _ => hflags flags⟩

/-- **When a caret goes the same way on both paths.** For every document, every revision it
still retains and every position in the text of that revision: what `since` composes takes
the position where the operations take it one after the other if and only if what comes
first behind it in the end was not put in behind it on the way. -/
theorem carets_agree_iff {document : CollabDocument} {revision : Nat} {text : Text}
    {window : List TextOperation} (hlo : document.historyBase ≤ revision)
    (hhi : revision ≤ document.revision)
    (hwindow : document.history.drop (revision - document.historyBase) = window)
    (hbuilt : ∀ entry ∈ window, entry.Built)
    (happlied : window.foldlM applyOperation text = .ok document.text) (position : Nat)
    (hposition : position ≤ text.length) :
    ∃ catchUp, document.since revision = .ok (some catchUp) ∧
      (transformPosition position catchUp = carried window position ↔
        NothingTypedNext window position text.length) := by
  have hleads := leads_of_applied (fun entry he => (hbuilt entry he).wellFormed) happlied
  obtain ⟨catchUp, hsince, hb, hbase, hflags⟩ := since_flags hlo hhi hwindow hbuilt hleads
  have hown : Mark.front ∉ List.replicate (text.length - position) Mark.own := by simp
  obtain ⟨q, rest, hq, hm, hf⟩ := marksAfter_front hleads hown
    (p := position) (by rw [List.length_replicate]; omega)
  have hfront : (marksAfter window (placed position text.length)).findIdx (· != .front) = q := by
    rw [placed, hm, findIdx_replicate_front q hf]
  have hiff := findIdx_eq_iff (marksAfter window (placed position text.length))
  rw [hfront] at hiff
  refine ⟨catchUp, hsince, ?_⟩
  rw [composed_position hleads hb hbase hflags hposition, hq]
  exact Int.ofNat_inj.trans hiff

/-! A caret at the start of one character. Another is typed behind it, and then the
first is deleted. -/

/-- Types `a` behind the one character there is. -/
def typeBehind : TextOperation := createOperation [.number 1, .string [97]]

def deleteFirst : TextOperation := createOperation [.number (-1), .number 1]

/-- The document `x`, after both. -/
def typedAndDeleted : CollabDocument :=
  ⟨[97], [typeBehind, deleteFirst], 0, 2000, by decide, by decide⟩

theorem typedAndDeleted_built : ∀ entry ∈ [typeBehind, deleteFirst], entry.Built :=
  List.forall_mem_cons.mpr
    ⟨createOperation_built _, List.forall_mem_singleton.mpr (createOperation_built _)⟩

theorem carets_agree_iff_end :
    ∃ catchUp, typedAndDeleted.since 0 = .ok (some catchUp) ∧
      (transformPosition 1 catchUp = carried [typeBehind, deleteFirst] 1 ↔
        NothingTypedNext [typeBehind, deleteFirst] 1 1) :=
  @carets_agree_iff typedAndDeleted 0 [120] _ (by decide) (by decide) rfl
    typedAndDeleted_built (by decide) 1 (by decide)

/-- **The late caret ends up behind what was typed, the early one in front of it.** -/
theorem carets_part :
    [typeBehind, deleteFirst].foldlM applyOperation [120] = .ok typedAndDeleted.text ∧
      typedAndDeleted.since 0 = .ok (some (createOperation [.string [97], .number (-1)])) ∧
      transformPosition 0 (createOperation [.string [97], .number (-1)]) = 1 ∧
      carried [typeBehind, deleteFirst] 0 = 0 := by
  decide +kernel

end AgenticGit.Collab
