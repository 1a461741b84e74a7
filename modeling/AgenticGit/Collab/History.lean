import AgenticGit.Collab.Document

/- What a document's history says about its text: `document.ts`'s methods as
   they run, statement by statement, and a whole run of them.

   Correspondence (TypeScript ↔ Lean):
     `new CollabDocument(content, historyLimit)` ↔ `CollabDocument.create`
     `diffOperation`, its two `while` loops      ↔ `diffOperation`, `matching`
     `this.text = ..`, `this.append(..)`         ↔ `assignText`, `appendEntry`
     the methods `receive` and `replace`         ↔ `receiveM`, `replaceM`, in a
       monad where a throw keeps what was assigned before it
     one call on the object, and a run of them   ↔ `Call`, `replay`

   What is proved:
     1. `diffOperation_applies` — the splice `replace` applies turns the old
        text into the new one.
     2. `receiveM_eq`, `replaceM_eq` — a throw leaves the object as it was, so
        the methods are `CollabDocument.receive` and `CollabDocument.replace`.
     3. `replay_explained` — in every state a run reaches, the retained entries
        lead from each retained revision's text to the current one. -/
namespace AgenticGit.Collab
open AgenticGit.EditScript AgenticGit.InFlight AgenticGit.Runtime

/-! ## diffOperation -/

/-- `while (count < limit && same(count)) count += 1`, by what is left of the
limit. -/
def matching (same : Nat → Bool) : Nat → Nat → Nat
  | 0, count => count
  | left + 1, count => if same count then matching same left (count + 1) else count

/-- The smallest single-splice operation turning `before` into `after`. -/
def diffOperation (before after : Text) : TextOperation :=
  let maximumPrefix := min before.length after.length
  let prefixLength := matching (fun i => before[i]? == after[i]?) maximumPrefix 0
  let maximumSuffix := maximumPrefix - prefixLength
  let suffixLength := matching
    (fun i => before[before.length - 1 - i]? == after[after.length - 1 - i]?) maximumSuffix 0
  ((((OperationBuilder.empty.retain prefixLength).delete
    (before.length - prefixLength - suffixLength)).insert
    ((after.take (after.length - suffixLength)).drop prefixLength)).retain suffixLength).build

theorem matching_le (same : Nat → Bool) (left count : Nat) :
    matching same left count ≤ count + left := by
  induction left generalizing count with
  | zero => exact Nat.le_refl _
  | succ left ih =>
    unfold matching
    split
    · have := ih (count + 1)
      omega
    · omega

theorem matching_same {same : Nat → Bool} {left count i : Nat} (hi : count ≤ i)
    (h : i < matching same left count) : same i = true := by
  induction left generalizing count with
  | zero => exact absurd h (Nat.not_lt.mpr hi)
  | succ left ih =>
    unfold matching at h
    split at h
    · rename_i hs
      rcases Nat.eq_or_lt_of_le hi with rfl | hlt
      · exact hs
      · exact ih hlt h
    · omega

theorem take_eq_of_same {before after : Text} {n : Nat}
    (h : ∀ i < n, before[i]? = after[i]?) : before.take n = after.take n := by
  apply List.ext_getElem?
  intro i
  rw [List.getElem?_take, List.getElem?_take]
  split
  · rename_i hi
    exact h i hi
  · rfl

theorem drop_eq_of_same {before after : Text} {n : Nat} (hb : n ≤ before.length)
    (ha : n ≤ after.length)
    (h : ∀ i < n, before[before.length - 1 - i]? = after[after.length - 1 - i]?) :
    before.drop (before.length - n) = after.drop (after.length - n) := by
  apply List.ext_getElem?
  intro i
  rw [List.getElem?_drop, List.getElem?_drop]
  by_cases hi : i < n
  · have := h (n - 1 - i) (by omega)
    rwa [show before.length - 1 - (n - 1 - i) = before.length - n + i by omega,
      show after.length - 1 - (n - 1 - i) = after.length - n + i by omega] at this
  · rw [List.getElem?_eq_none (by omega), List.getElem?_eq_none (by omega)]

theorem act_splice (kept cut put rest : Text) :
    act (keeps kept.length ++ drops cut.length ++ puts put ++ keeps rest.length)
      (kept ++ cut ++ rest) = some (kept ++ put ++ rest) := by
  simp [act_append, act_keeps, act_drops, act_puts]

theorem splice_applies {before after : Text} {p q : Nat}
    (hp : before.take p = after.take p)
    (hq : before.drop (before.length - q) = after.drop (after.length - q))
    (hb : p + q ≤ before.length) (ha : p + q ≤ after.length) :
    Applies ((((OperationBuilder.empty.retain p).delete (before.length - p - q)).insert
      ((after.take (after.length - q)).drop p)).retain q).build before after := by
  refine ⟨OperationBuilder.build_wellFormed _, ?_⟩
  have hbefore : before = before.take p ++ (before.take (before.length - q)).drop p ++
      before.drop (before.length - q) := by
    conv_lhs => rw [← List.take_append_drop (before.length - q) before,
      ← List.take_append_drop p (before.take (before.length - q))]
    rw [List.take_take, Nat.min_eq_left (by omega)]
  have hafter : after.take p ++ (after.take (after.length - q)).drop p ++
      after.drop (after.length - q) = after := by
    conv_rhs => rw [← List.take_append_drop (after.length - q) after,
      ← List.take_append_drop p (after.take (after.length - q))]
    rw [List.take_take, Nat.min_eq_left (by omega)]
  have hs : SameEffect
      ((((OperationBuilder.empty.retain p).delete (before.length - p - q)).insert
        ((after.take (after.length - q)).drop p)).retain q).build.script
      (keeps (before.take p).length ++ drops ((before.take (before.length - q)).drop p).length ++
        puts ((after.take (after.length - q)).drop p) ++
        keeps (before.drop (before.length - q)).length) := by
    rw [OperationBuilder.build_script, OperationBuilder.retain_script _ (by omega)]
    refine .append (.trans (OperationBuilder.insert_effect _ _) (.append (.of_eq ?_) (.refl _)))
      (.of_eq ?_)
    · rw [OperationBuilder.delete_script _ (by omega),
        OperationBuilder.retain_script _ (by omega), OperationBuilder.empty_script,
        List.nil_append, List.length_drop, List.length_take, List.length_take]
      congr 2 <;> omega
    · rw [List.length_drop]
      congr 1
      omega
  calc act _ before
    _ = act _ (before.take p ++ (before.take (before.length - q)).drop p ++
          before.drop (before.length - q)) := by rw [hs.act, ← hbefore]
    _ = some (before.take p ++ (after.take (after.length - q)).drop p ++
          before.drop (before.length - q)) := act_splice _ _ _ _
    _ = some after := by rw [hp, hq, hafter]

/-- **The splice turns `before` into `after`.** -/
theorem diffOperation_applies (before after : Text) :
    Applies (diffOperation before after) before after := by
  have hp := matching_le (fun i => before[i]? == after[i]?) (min before.length after.length) 0
  have hq := matching_le
    (fun i => before[before.length - 1 - i]? == after[after.length - 1 - i]?)
    (min before.length after.length -
      matching (fun i => before[i]? == after[i]?) (min before.length after.length) 0) 0
  apply splice_applies
  · exact take_eq_of_same fun i hi => eq_of_beq (matching_same (Nat.zero_le i) hi)
  · exact drop_eq_of_same (by omega) (by omega)
      fun i hi => eq_of_beq (matching_same (Nat.zero_le i) hi)
  · omega
  · omega

namespace CollabDocument

/-! ## The methods, as they run -/

/-- `new CollabDocument(content, historyLimit)`. -/
def create (content : Text) (historyLimit : Int) : Except String CollabDocument :=
  if h : ¬IsSafeInteger historyLimit ∨ historyLimit < 1 then
    .error "History limit must be a positive integer"
  else .ok {
    text := content
    history := []
    historyBase := 0
    historyLimit := historyLimit.toNat
    limit_pos := by omega
    history_length := Nat.zero_le _ }

/-- `this.text = text`. -/
def assignText (text : Text) (document : CollabDocument) : CollabDocument :=
  { document with text := text }

/-- `this.append(operation)`. -/
def appendEntry (operation : TextOperation) (document : CollabDocument) : CollabDocument :=
  document.append document.text operation

/-- A method of the object: what it assigned before a throw stays assigned. -/
abbrev Method := EStateM CollabError CollabDocument

def receiveM (clientRevision : Int) (operation : TextOperation) : Method AppliedOperation := do
  let document ← get
  if ¬IsSafeInteger clientRevision ∨ clientRevision < 0 then
    throw ⟨"invalid_revision", "Revision must be a non-negative integer"⟩
  else if clientRevision > document.revision then
    throw ⟨"invalid_revision", "The client claims a revision the server has not reached"⟩
  else if clientRevision < document.historyBase then
    throw ⟨"revision_too_old", "The client is too far behind to be rebased; resynchronize"⟩
  else
    let rebased ← MonadExcept.ofExcept (rebase operation
      (document.history.drop (clientRevision - document.historyBase).toNat))
    let text ← MonadExcept.ofExcept (applyOperation document.text rebased)
    modify (assignText text)
    modify (appendEntry rebased)
    return ⟨(← get).revision, rebased⟩

def replaceM (content : Text) : Method (Option AppliedOperation) := do
  let document ← get
  if content = document.text then
    return none
  else
    let operation := diffOperation document.text content
    let text ← MonadExcept.ofExcept (applyOperation document.text operation)
    modify (assignText text)
    modify (appendEntry operation)
    return some ⟨(← get).revision, operation⟩

/-- `replace`, by the state afterwards: nothing happens when the text is the
same. -/
def replace (document : CollabDocument) (content : Text) :
    Option AppliedOperation × CollabDocument :=
  if content = document.text then (none, document)
  else
    let operation := diffOperation document.text content
    let document := document.append content operation
    (some ⟨document.revision, operation⟩, document)

theorem get_run {α : Type} (rest : CollabDocument → Method α) (document : CollabDocument) :
    (get >>= rest).run document = (rest document).run document := rfl

theorem throw_run {α : Type} (e : CollabError) (document : CollabDocument) :
    (throw e : Method α).run document = .error e document := rfl

theorem return_run {α : Type} (a : α) (document : CollabDocument) :
    (return a : Method α).run document = .ok a document := rfl

theorem modify_run {α : Type} (f : CollabDocument → CollabDocument)
    (rest : PUnit → Method α) (document : CollabDocument) :
    (modify f >>= rest).run document = (rest ⟨⟩).run (f document) := rfl

theorem ite_run {α : Type} {p : Prop} [Decidable p] (x y : Method α)
    (document : CollabDocument) :
    (if p then x else y).run document = if p then x.run document else y.run document := by
  split <;> rfl

theorem ofExcept_run {α β : Type} (x : Except CollabError α) (rest : α → Method β)
    (document : CollabDocument) :
    ((MonadExcept.ofExcept x : Method α) >>= rest).run document =
      match x with
      | .ok a => (rest a).run document
      | .error e => .error e document := by
  cases x <;> rfl

/-- **A `receive` that throws leaves the object as it was.** -/
theorem receiveM_eq (clientRevision : Int) (operation : TextOperation)
    (document : CollabDocument) :
    (receiveM clientRevision operation).run document =
      match document.receive clientRevision operation with
      | .ok (applied, document') => .ok applied document'
      | .error e => .error e document := by
  simp only [receiveM, receive, get_run, throw_run, ite_run, ofExcept_run, modify_run,
    return_run]
  by_cases h₁ : ¬IsSafeInteger clientRevision ∨ clientRevision < 0
  · rw [if_pos h₁, if_pos h₁]
  by_cases h₂ : clientRevision > document.revision
  · rw [if_neg h₁, if_neg h₁, if_pos h₂, if_pos h₂]
  by_cases h₃ : clientRevision < document.historyBase
  · rw [if_neg h₁, if_neg h₁, if_neg h₂, if_neg h₂, if_pos h₃, if_pos h₃]
  rw [if_neg h₁, if_neg h₁, if_neg h₂, if_neg h₂, if_neg h₃, if_neg h₃]
  cases rebase operation (document.history.drop (clientRevision - document.historyBase).toNat) with
  | error e => rfl
  | ok rebased =>
    simp only [bind, Except.bind]
    cases applyOperation document.text rebased with
    | error e => rfl
    | ok text => rfl

/-- **A `replace` never throws.** -/
theorem replaceM_eq (content : Text) (document : CollabDocument) :
    (replaceM content).run document =
      .ok (document.replace content).1 (document.replace content).2 := by
  have h := (diffOperation_applies document.text content).apply
  simp only [replaceM, replace, get_run, ite_run, ofExcept_run, modify_run, return_run,
    h]
  split <;> rfl

theorem replace_text (content : Text) (document : CollabDocument) :
    (document.replace content).2.text = content := by
  unfold replace
  split
  · rename_i h
    exact h.symm
  · rfl

theorem receive_ok {clientRevision : Int} {operation : TextOperation}
    {document document' : CollabDocument} {applied : AppliedOperation}
    (h : document.receive clientRevision operation = .ok (applied, document')) :
    (document.historyBase : Int) ≤ clientRevision ∧ clientRevision ≤ document.revision ∧
      ∃ rebased text,
        rebase operation (document.history.drop (clientRevision - document.historyBase).toNat) =
          .ok rebased ∧
        applyOperation document.text rebased = .ok text ∧
        document' = document.append text rebased ∧ applied = ⟨document'.revision, rebased⟩ := by
  unfold receive at h
  split at h
  · cases h
  split at h
  · cases h
  split at h
  · cases h
  obtain ⟨rebased, hr, h⟩ := except_bind_ok h
  obtain ⟨text, ht, h⟩ := except_bind_ok h
  obtain ⟨rfl, rfl⟩ := Prod.mk.inj (Except.ok.inj h)
  exact ⟨by omega, by omega, rebased, text, hr, ht, rfl, rfl⟩

end CollabDocument

/-! ## The entries between two texts -/

/-- The entries lead from one text to another, each from the text the one
before it produced. -/
def Leads (before : Text) (entries : List TextOperation) (after : Text) : Prop :=
  Delivers textSystem before none (entries.map .op) entries after none

namespace Leads

theorem refl (text : Text) : Leads text [] text := .nil text none

theorem nil_eq {before after : Text} (h : Leads before [] after) : after = before :=
  (Delivers.nil_eq h).1

theorem head {before after : Text} {entry : TextOperation} {entries : List TextOperation}
    (h : Leads before (entry :: entries) after) :
    ∃ middle, Applies entry before middle ∧ Leads middle entries after := by
  obtain ⟨middle, ha, ⟨-, rest⟩ | ⟨_, _, _, hn, -⟩⟩ := Delivers.head_op h
  · exact ⟨middle, ha, rest⟩
  · cases hn

theorem snoc {before middle after : Text} {entries : List TextOperation} {entry : TextOperation}
    (h : Leads before entries middle) (he : Applies entry middle after) :
    Leads before (entries ++ [entry]) after := by
  unfold Leads
  rw [List.map_append, List.map_singleton]
  exact Delivers.snoc_op h he

theorem rebase {before after text : Text} {entries : List TextOperation}
    {operation : TextOperation} (h : Leads before entries after)
    (ho : Applies operation before text) :
    ∃ rebased text', CollabDocument.rebase operation entries = .ok rebased ∧
      Applies rebased after text' := by
  obtain ⟨rebased, hd, hr⟩ := Delivers.start h ho
  obtain ⟨text', ht⟩ := Delivers.acts_out hd ho
  exact ⟨rebased, text', hr, ht⟩

theorem compose {before middle after : Text} {entries : List TextOperation}
    {entry : TextOperation} (he : Applies entry before middle) (h : Leads middle entries after) :
    ∃ operation, entries.foldlM composeOperations entry = .ok operation ∧
      Applies operation before after := by
  induction entries generalizing entry middle with
  | nil =>
    obtain rfl := h.nil_eq
    exact ⟨entry, rfl, he⟩
  | cons next entries ih =>
    obtain ⟨text, hn, h⟩ := h.head
    obtain ⟨both, hc, hb⟩ := composeOperations_spec he hn
    obtain ⟨operation, ho, ha⟩ := ih hb h
    refine ⟨operation, ?_, ha⟩
    rw [List.foldlM_cons, hc]
    exact ho

end Leads

namespace CollabDocument

theorem rebased_base {before after : Text} {entries : List TextOperation}
    {operation rebased : TextOperation} {text : Text} (hw : operation.WellFormed)
    (h : Leads before entries after) (hr : rebase operation entries = .ok rebased)
    (ha : applyOperation after rebased = .ok text) :
    Applies rebased after text := by
  have hbase : operation.baseLength = before.length := by
    cases entries with
    | nil =>
      obtain rfl := Except.ok.inj hr
      obtain rfl := h.nil_eq
      unfold applyOperation at ha
      split at ha
      · cases ha
      · omega
    | cons entry entries =>
      obtain ⟨middle, he, -⟩ := h.head
      rw [← he.base_length]
      by_contra hne
      have hm : textSystem.carry operation entry = .error _ := if_pos hne
      simp only [rebase, OpSystem.rebase, hm] at hr
      cases hr
  obtain ⟨text', ho⟩ := Applies.of_base_length hw hbase
  obtain ⟨rebased', after', hr', ha'⟩ := h.rebase ho
  obtain rfl := Except.ok.inj (hr.symm.trans hr')
  obtain rfl := Except.ok.inj (ha.symm.trans ha'.apply)
  exact ha'

theorem since_leads {document : CollabDocument} {revision : Nat} {before : Text}
    (hlo : document.historyBase ≤ revision) (hhi : revision ≤ document.revision)
    (h : Leads before (document.history.drop (revision - document.historyBase))
      document.text) :
    ∃ operation, document.since revision = .ok (some operation) ∧
      Applies operation before document.text := by
  have hk : ((revision : Int) - document.historyBase).toNat = revision - document.historyBase := by
    omega
  unfold since
  rw [if_neg (by omega), hk]
  cases hd : document.history.drop (revision - document.historyBase) with
  | nil =>
    rw [hd] at h
    have he := h.nil_eq
    refine ⟨_, rfl, OperationBuilder.build_wellFormed _, ?_⟩
    show act (OperationBuilder.empty.retain document.text.length).script before = _
    rw [OperationBuilder.retain_script _ (by omega), OperationBuilder.empty_script,
      List.nil_append, Int.toNat_natCast, he, act_keeps]
  | cons entry entries =>
    rw [hd] at h
    obtain ⟨middle, he, h⟩ := h.head
    obtain ⟨operation, ho, ha⟩ := Leads.compose he h
    refine ⟨operation, ?_, ha⟩
    simp only [ho]
    rfl

theorem append_window {document : CollabDocument} {revision : Nat} (text : Text)
    (operation : TextOperation)
    (hlo : (document.append text operation).historyBase ≤ revision)
    (hhi : revision ≤ document.revision) :
    (document.append text operation).history.drop
        (revision - (document.append text operation).historyBase) =
      document.history.drop (revision - document.historyBase) ++ [operation] := by
  simp only [append, CollabDocument.revision] at hlo hhi ⊢
  rw [List.drop_drop, ← List.drop_append_of_le_length (by omega)]
  congr 1
  omega

theorem append_base_le (document : CollabDocument) (text : Text) (operation : TextOperation) :
    document.historyBase ≤ (document.append text operation).historyBase :=
  Nat.le_add_right _ _

end CollabDocument

/-! ## Runs -/

inductive Call where
  | receive (clientRevision : Int) (operation : TextOperation)
  | replace (content : Text)
  deriving DecidableEq, Repr

namespace Call

/-- The operation it carries, if any, is as an `OperationBuilder` builds it. -/
def Built : Call → Prop
  | .receive _ operation => operation.WellFormed
  | .replace _ => True

instance : DecidablePred Built := fun call =>
  match call with
  | .receive _ operation => inferInstanceAs (Decidable operation.WellFormed)
  | .replace _ => isTrue trivial

/-- The document after the call, whether the call returned or threw. -/
def after (document : CollabDocument) : Call → CollabDocument
  | .receive clientRevision operation =>
    match (CollabDocument.receiveM clientRevision operation).run document with
    | .ok _ document' => document'
    | .error _ document' => document'
  | .replace content =>
    match (CollabDocument.replaceM content).run document with
    | .ok _ document' => document'
    | .error _ document' => document'

theorem after_receive (document : CollabDocument) (clientRevision : Int)
    (operation : TextOperation) :
    (receive clientRevision operation).after document =
      match document.receive clientRevision operation with
      | .ok (_, document') => document'
      | .error _ => document := by
  unfold after
  simp only [CollabDocument.receiveM_eq]
  cases document.receive clientRevision operation <;> rfl

theorem after_replace (document : CollabDocument) (content : Text) :
    (replace content).after document = (document.replace content).2 := by
  unfold after
  simp only [CollabDocument.replaceM_eq]

end Call

def replay (start : CollabDocument) (calls : List Call) : CollabDocument :=
  calls.foldl Call.after start

@[simp] theorem replay_nil (start : CollabDocument) : replay start [] = start := rfl

@[simp] theorem replay_snoc (start : CollabDocument) (calls : List Call) (call : Call) :
    replay start (calls ++ [call]) = call.after (replay start calls) := by
  simp [replay]

/-- Every revision up to the current one was some earlier state's, and from
each one still retained the entries lead to the current text. -/
structure Explained (start : CollabDocument) (calls : List Call) : Prop where
  reached : ∀ revision ≤ (replay start calls).revision,
    ∃ past, past <+: calls ∧ (replay start past).revision = revision
  bounded : ∀ past, past <+: calls → (replay start past).revision ≤ (replay start calls).revision
  leads : ∀ past, past <+: calls →
    (replay start calls).historyBase ≤ (replay start past).revision →
    Leads (replay start past).text
      ((replay start calls).history.drop
        ((replay start past).revision - (replay start calls).historyBase))
      (replay start calls).text

namespace Explained

theorem nil {start : CollabDocument} (h : start.history = []) (hb : start.historyBase = 0) :
    Explained start [] where
  reached revision hr := by
    refine ⟨[], List.prefix_refl _, ?_⟩
    simp only [replay_nil, CollabDocument.revision, h, hb, List.length_nil] at hr ⊢
    omega
  bounded past hp := by rw [List.prefix_nil.mp hp]
  leads past hp _ := by
    rw [List.prefix_nil.mp hp, replay_nil, h, List.drop_nil]
    exact Leads.refl _

/-- What a call can do: leave the document as it is, or append an entry that
turns its text into the next. -/
theorem after_cases {start : CollabDocument} {calls : List Call} {call : Call}
    (h : Explained start calls) (hb : call.Built) :
    call.after (replay start calls) = replay start calls ∨
      ∃ operation text, Applies operation (replay start calls).text text ∧
        call.after (replay start calls) = (replay start calls).append text operation := by
  cases call with
  | receive clientRevision operation =>
    rw [Call.after_receive]
    cases hr : (replay start calls).receive clientRevision operation with
    | error e => exact .inl rfl
    | ok result =>
      obtain ⟨applied, document'⟩ := result
      obtain ⟨hlo, hhi, rebased, text, hrebase, ht, rfl, -⟩ := CollabDocument.receive_ok hr
      obtain ⟨past, hp, hrev⟩ := h.reached clientRevision.toNat (by omega)
      have hl := h.leads past hp (by omega)
      rw [hrev, show clientRevision.toNat - (replay start calls).historyBase =
        (clientRevision - (replay start calls).historyBase).toNat by omega] at hl
      exact .inr ⟨rebased, text, CollabDocument.rebased_base hb hl hrebase ht, rfl⟩
  | replace content =>
    rw [Call.after_replace]
    unfold CollabDocument.replace
    split
    · exact .inl rfl
    · exact .inr ⟨_, content, diffOperation_applies _ _, rfl⟩

/-- **One more call keeps the history explaining the text.** -/
theorem snoc {start : CollabDocument} {calls : List Call} {call : Call}
    (h : Explained start calls) (hb : call.Built) : Explained start (calls ++ [call]) := by
  obtain hsame | ⟨operation, text, ha, hnext⟩ := h.after_cases hb
  · have same {past : List Call} (hp : past <+: calls ++ [call]) :
        ∃ past', past' <+: calls ∧ replay start past' = replay start past := by
      obtain rfl | hp := List.prefix_concat_iff.mp hp
      · exact ⟨calls, List.prefix_refl _, by rw [replay_snoc, hsame]⟩
      · exact ⟨past, hp, rfl⟩
    constructor
    · intro revision hr
      rw [replay_snoc, hsame] at hr
      obtain ⟨past, hp, he⟩ := h.reached revision hr
      exact ⟨past, hp.trans (List.prefix_append _ _), he⟩
    · intro past hp
      obtain ⟨past', hp', he⟩ := same hp
      rw [replay_snoc, hsame, ← he]
      exact h.bounded past' hp'
    · intro past hp
      obtain ⟨past', hp', he⟩ := same hp
      rw [replay_snoc, hsame, ← he]
      exact h.leads past' hp'
  · have hrev := CollabDocument.append_revision (replay start calls) text operation
    constructor
    · intro revision hr
      rw [replay_snoc, hnext, hrev] at hr
      obtain rfl | hlt := Nat.eq_or_lt_of_le hr
      · exact ⟨calls ++ [call], List.prefix_refl _, by rw [replay_snoc, hnext, hrev]⟩
      · obtain ⟨past, hp, he⟩ := h.reached revision (by omega)
        exact ⟨past, hp.trans (List.prefix_append _ _), he⟩
    · intro past hp
      rw [replay_snoc, hnext, hrev]
      obtain rfl | hp := List.prefix_concat_iff.mp hp
      · rw [replay_snoc, hnext, hrev]
      · have := h.bounded past hp
        omega
    · intro past hp hlo
      rw [replay_snoc, hnext] at hlo ⊢
      obtain rfl | hp := List.prefix_concat_iff.mp hp
      · rw [replay_snoc, hnext, List.drop_eq_nil_of_le]
        · exact Leads.refl _
        · unfold CollabDocument.revision
          omega
      · have hlo' := (CollabDocument.append_base_le _ text operation).trans hlo
        rw [CollabDocument.append_window text operation hlo (h.bounded past hp)]
        exact (h.leads past hp hlo').snoc ha

end Explained

/-- **Every run keeps the history explaining the text.** -/
theorem replay_explained {start : CollabDocument} (hh : start.history = [])
    (hz : start.historyBase = 0) (calls : List Call) (hb : ∀ call ∈ calls, call.Built) :
    Explained start calls := by
  induction calls using List.reverseRecOn with
  | nil => exact Explained.nil hh hz
  | append_singleton calls call ih =>
    have hc := List.forall_mem_append.mp hb
    exact (ih hc.1).snoc (hc.2 call (List.mem_singleton_self call))

theorem create_history {content : Text} {historyLimit : Int} {document : CollabDocument}
    (h : CollabDocument.create content historyLimit = .ok document) :
    document.history = [] ∧ document.historyBase = 0 := by
  unfold CollabDocument.create at h
  split at h
  · cases h
  · obtain rfl := Except.ok.inj h
    exact ⟨rfl, rfl⟩

/-- **The history explains the text.** Whatever calls a document has had, with
operations as a builder builds them: `since` carries the text of each retained
revision to the current one and is undefined elsewhere, a `receive` that throws
changes nothing, one that returns advances the revision by one, and `replace`
leaves exactly its argument. -/
theorem history_explains_text {content : Text} {historyLimit : Int} {start : CollabDocument}
    (h : CollabDocument.create content historyLimit = .ok start) (calls : List Call)
    (hb : ∀ call ∈ calls, call.Built) :
    (∀ past, past <+: calls →
      (replay start calls).oldestRebasableRevision ≤ (replay start past).revision →
      ∃ operation,
        (replay start calls).since (replay start past).revision = .ok (some operation) ∧
        operation.baseLength = (replay start past).text.length ∧
        applyOperation (replay start past).text operation = .ok (replay start calls).text) ∧
    (∀ revision ≤ (replay start calls).revision,
      ∃ past, past <+: calls ∧ (replay start past).revision = revision) ∧
    (∀ revision : Int, revision < (replay start calls).oldestRebasableRevision ∨
      revision > (replay start calls).revision → (replay start calls).since revision = .ok none) ∧
    (∀ clientRevision operation,
      match (CollabDocument.receiveM clientRevision operation).run (replay start calls) with
      | .ok _ document => document.revision = (replay start calls).revision + 1
      | .error _ document => document = replay start calls) ∧
    (∀ text, ∃ applied document,
      (CollabDocument.replaceM text).run (replay start calls) = .ok applied document ∧
        document.text = text) := by
  obtain ⟨hh, hz⟩ := create_history h
  have explained := replay_explained hh hz calls hb
  refine ⟨?_, explained.reached, ?_, ?_, ?_⟩
  · intro past hp hlo
    obtain ⟨operation, hs, ha⟩ := CollabDocument.since_leads hlo (explained.bounded past hp)
      (explained.leads past hp hlo)
    exact ⟨operation, hs, ha.base_length, ha.apply⟩
  · intro revision hr
    exact if_pos hr
  · intro clientRevision operation
    rw [CollabDocument.receiveM_eq]
    cases hr : (replay start calls).receive clientRevision operation with
    | error e => rfl
    | ok result =>
      obtain ⟨applied, document⟩ := result
      obtain ⟨-, -, rebased, text, -, -, rfl, -⟩ := CollabDocument.receive_ok hr
      exact CollabDocument.append_revision _ _ _
  · intro text
    exact ⟨_, _, CollabDocument.replaceM_eq text _, CollabDocument.replace_text text _⟩

def twoEntries : CollabDocument := ⟨[104, 105], [], 0, 2, by decide, by decide⟩

/-- An insertion, a change of the file from outside, and a second insertion. -/
def threeCalls : List Call :=
  [.receive 0 (createOperation [.number 2, .string [33]]), .replace [104, 33],
    .receive 2 (createOperation [.string [62], .number 2])]

theorem history_explains_text_two_entries :
    ∃ operation, (replay twoEntries threeCalls).since 1 = .ok (some operation) ∧
      operation.baseLength = 3 ∧ applyOperation [104, 105, 33] operation = .ok [62, 104, 33] :=
  have h : CollabDocument.create [104, 105] 2 = .ok twoEntries := by decide
  (history_explains_text h threeCalls (by decide)).1 (threeCalls.take 1) (by decide) (by decide)

/-- An operation no builder builds: it claims five code units and names none. -/
def malformedOperation : TextOperation := ⟨[], 5, 5⟩

/-- Taken as it is, such an operation leaves `since` throwing for a revision
the document still retains. -/
theorem malformed_history_unexplained :
    let document := replay ⟨[104, 101, 108, 108, 111], [], 0, 2, by decide, by decide⟩
      [.receive 0 malformedOperation, .receive 1 (createOperation [.string [33]])]
    document.oldestRebasableRevision = 0 ∧ document.revision = 2 ∧
      document.since 0 = .error (composeMismatch
        "The second operation does not apply to the first operation's output") := by
  decide

end AgenticGit.Collab
