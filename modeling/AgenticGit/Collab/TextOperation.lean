import Mathlib.Data.Int.Order.Basic
import AgenticGit.Lib.EditScript

/- Operational transformation over plain text: `packages/collab`'s
   `text-operation.ts`, function by function, and what each function does to
   the edit script an operation stands for.

   Correspondence (TypeScript ↔ Lean):
     the UTF-16 code units of a string       ↔ `Text`
     a component `number | string`           ↔ `OperationComponent`
     `OperationBuilder`, `components.at(-1)` ↔ `OperationBuilder`, newest first
     the `for (;;)` loops over `a` and `b`   ↔ recursion on the two component
       lists, whose heads are the current `a` and `b`; `undefined` is `[]`
     `throw new CollabError(..)`             ↔ `Except.error`

   A well-formed operation (`TextOperation.WellFormed`) is what every
   `OperationBuilder` builds: no empty component, and lengths that are those of
   its script. On these `transformOperations` is the diamond of
   `Lib.EditScript` and `composeOperations` is its composition. -/
namespace AgenticGit.Collab
open AgenticGit.EditScript

/-- A UTF-16 code unit: what offsets into a document count. -/
abbrev CodeUnit := UInt16

abbrev Text := List CodeUnit

structure CollabError where
  code : String
  message : String
  deriving DecidableEq, Repr

/-- A positive number retains that many code units, a negative number deletes
that many, a string inserts itself. -/
inductive OperationComponent where
  | number : Int → OperationComponent
  | string : Text → OperationComponent
  deriving DecidableEq, Repr

structure TextOperation where
  components : List OperationComponent
  /-- Length of the document this operation may be applied to. -/
  baseLength : Int
  /-- Length of the document it produces. -/
  targetLength : Int
  deriving DecidableEq, Repr

def OperationComponent.script : OperationComponent → Script CodeUnit
  | .number n => if 0 < n then keeps n.toNat else drops (-n).toNat
  | .string text => puts text

/-- A component that does something: a number that is not zero, a string that
is not empty. -/
def OperationComponent.Proper : OperationComponent → Prop
  | .number n => n ≠ 0
  | .string text => text ≠ []

instance : DecidablePred OperationComponent.Proper := fun c =>
  match c with
  | .number n => inferInstanceAs (Decidable (n ≠ 0))
  | .string text => inferInstanceAs (Decidable (text ≠ []))

def scriptOf (components : List OperationComponent) : Script CodeUnit :=
  components.flatMap OperationComponent.script

def TextOperation.script (operation : TextOperation) : Script CodeUnit :=
  scriptOf operation.components

/-- What every `OperationBuilder` builds: no component is empty, and the two
lengths are those of the script. -/
structure TextOperation.WellFormed (operation : TextOperation) : Prop where
  proper : ∀ component ∈ operation.components, component.Proper
  base : operation.baseLength = baseLen operation.script
  target : operation.targetLength = targetLen operation.script

instance (operation : TextOperation) : Decidable operation.WellFormed :=
  decidable_of_iff
    ((∀ component ∈ operation.components, component.Proper) ∧
      operation.baseLength = baseLen operation.script ∧
      operation.targetLength = targetLen operation.script)
    ⟨fun h => ⟨h.1, h.2.1, h.2.2⟩, fun h => ⟨h.proper, h.base, h.target⟩⟩

@[simp] theorem scriptOf_nil : scriptOf [] = [] := rfl

@[simp] theorem scriptOf_cons (c : OperationComponent) (cs : List OperationComponent) :
    scriptOf (c :: cs) = c.script ++ scriptOf cs := rfl

@[simp] theorem scriptOf_append (cs ds : List OperationComponent) :
    scriptOf (cs ++ ds) = scriptOf cs ++ scriptOf ds := by
  simp [scriptOf]

theorem script_retain {n : Int} (h : 0 < n) :
    (OperationComponent.number n).script = keeps n.toNat := by
  simp [OperationComponent.script, h]

theorem script_delete {n : Int} (h : n < 0) :
    (OperationComponent.number n).script = drops (-n).toNat := by
  simp [OperationComponent.script, show ¬0 < n by omega]

theorem script_string (text : Text) : (OperationComponent.string text).script = puts text := rfl

/-! ## OperationBuilder -/

/-- The counters an `OperationBuilder` keeps are those of what it has
accumulated, and nothing it has accumulated is empty. -/
structure Accumulated (recent : List OperationComponent) (base target : Int) : Prop where
  proper : ∀ component ∈ recent, component.Proper
  base : base = baseLen (scriptOf recent.reverse)
  target : target = targetLen (scriptOf recent.reverse)

/-- Accumulates components in canonical form. `components.at(-1)` is the head
of `recent`. -/
structure OperationBuilder where
  recent : List OperationComponent
  base : Int
  target : Int
  accumulated : Accumulated recent base target

namespace OperationBuilder

def empty : OperationBuilder := ⟨[], 0, 0, ⟨by simp, rfl, rfl⟩⟩

/-- What the builder has accumulated so far, as a script. -/
def script (builder : OperationBuilder) : Script CodeUnit := scriptOf builder.recent.reverse

/-- `retain`, on the components. -/
def pushRetain (count : Int) : List OperationComponent → List OperationComponent
  | .number last :: rest =>
    if 0 < last then .number (last + count) :: rest
    else .number count :: .number last :: rest
  | recent => .number count :: recent

/-- `delete`, on the components. -/
def pushDelete (count : Int) : List OperationComponent → List OperationComponent
  | .number last :: rest =>
    if last < 0 then .number (last - count) :: rest
    else .number (-count) :: .number last :: rest
  | recent => .number (-count) :: recent

/-- `insert`, on the components: an insert that lands next to a delete is
emitted before it. -/
def pushInsert (text : Text) : List OperationComponent → List OperationComponent
  | .string last :: rest => .string (last ++ text) :: rest
  | .number last :: .string previous :: rest =>
    if last < 0 then .number last :: .string (previous ++ text) :: rest
    else .string text :: .number last :: .string previous :: rest
  | .number last :: rest =>
    if last < 0 then .number last :: .string text :: rest
    else .string text :: .number last :: rest
  | [] => [.string text]

variable {count : Int}

theorem scriptOf_pushRetain (h : 0 < count) (recent : List OperationComponent) :
    scriptOf (pushRetain count recent).reverse = scriptOf recent.reverse ++ keeps count.toNat := by
  cases recent with
  | nil => simp [pushRetain, script_retain h]
  | cons c rest =>
    cases c with
    | string text => simp [pushRetain, script_retain h]
    | number last =>
      by_cases hl : 0 < last
      · have hs : 0 < last + count := by omega
        have he : (last + count).toNat = last.toNat + count.toNat := by omega
        simp [pushRetain, hl, script_retain hl, script_retain hs, he, keeps_add]
      · simp [pushRetain, hl, script_retain h]

theorem scriptOf_pushDelete (h : 0 < count) (recent : List OperationComponent) :
    scriptOf (pushDelete count recent).reverse = scriptOf recent.reverse ++ drops count.toNat := by
  have hn : -count < 0 := by omega
  cases recent with
  | nil => simp [pushDelete, script_delete hn]
  | cons c rest =>
    cases c with
    | string text => simp [pushDelete, script_delete hn]
    | number last =>
      by_cases hl : last < 0
      · have hs : last - count < 0 := by omega
        have he : (-(last - count)).toNat = (-last).toNat + count.toNat := by omega
        rw [pushDelete, if_pos hl]
        simp only [List.reverse_cons, scriptOf_append, scriptOf_cons, scriptOf_nil,
          List.append_nil, script_delete hl, script_delete hs, he, drops_add, List.append_assoc]
      · simp [pushDelete, hl, script_delete hn]

theorem pushInsert_effect (text : Text) (recent : List OperationComponent) :
    SameEffect (scriptOf (pushInsert text recent).reverse)
      (scriptOf recent.reverse ++ puts text) := by
  have swap (last : Int) (h : last < 0) (xs : Script CodeUnit) :
      SameEffect (xs ++ (puts text ++ drops (-last).toNat))
        (xs ++ (drops (-last).toNat ++ puts text)) :=
    (SameEffect.refl xs).append (sameEffect_swap _ text).symm
  match recent with
  | [] => exact .of_eq (by simp [pushInsert, script_string])
  | .string last :: rest => exact .of_eq (by simp [pushInsert, script_string, puts_append])
  | .number last :: .string previous :: rest =>
    by_cases hl : last < 0
    · simpa [pushInsert, hl, script_delete hl, script_string, puts_append]
        using swap last hl (scriptOf rest.reverse ++ puts previous)
    · exact .of_eq (by simp [pushInsert, hl, script_string])
  | [.number last] =>
    by_cases hl : last < 0
    · simpa [pushInsert, hl, script_delete hl, script_string] using swap last hl []
    · exact .of_eq (by simp [pushInsert, hl, script_string])
  | .number last :: .number previous :: rest =>
    by_cases hl : last < 0
    · simpa [pushInsert, hl, script_delete hl, script_string]
        using swap last hl (scriptOf rest.reverse ++ (OperationComponent.number previous).script)
    · exact .of_eq (by simp [pushInsert, hl, script_string])

theorem targetLen_pushInsert (text : Text) (recent : List OperationComponent) :
    targetLen (scriptOf (pushInsert text recent).reverse) =
      targetLen (scriptOf recent.reverse) + text.length := by
  rw [(pushInsert_effect text recent).targetLen_eq (List.length_replicate (a := 0)).symm]
  simp

theorem pushRetain_proper (h : 0 < count) {recent : List OperationComponent}
    (hr : ∀ c ∈ recent, c.Proper) : ∀ c ∈ pushRetain count recent, c.Proper := by
  have hc : (OperationComponent.number count).Proper := show count ≠ 0 by omega
  cases recent with
  | nil => simpa [pushRetain] using hc
  | cons d rest =>
    rw [List.forall_mem_cons] at hr
    cases d with
    | string text => simpa [pushRetain] using ⟨hc, hr⟩
    | number last =>
      by_cases hl : 0 < last
      · have hs : (OperationComponent.number (last + count)).Proper :=
          show last + count ≠ 0 by omega
        simpa [pushRetain, hl] using ⟨hs, hr.2⟩
      · simpa [pushRetain, hl] using ⟨hc, hr⟩

theorem pushDelete_proper (h : 0 < count) {recent : List OperationComponent}
    (hr : ∀ c ∈ recent, c.Proper) : ∀ c ∈ pushDelete count recent, c.Proper := by
  have hc : (OperationComponent.number (-count)).Proper := show -count ≠ 0 by omega
  cases recent with
  | nil => simpa [pushDelete] using hc
  | cons d rest =>
    rw [List.forall_mem_cons] at hr
    cases d with
    | string text => simpa [pushDelete] using ⟨hc, hr⟩
    | number last =>
      by_cases hl : last < 0
      · have hs : (OperationComponent.number (last - count)).Proper :=
          show last - count ≠ 0 by omega
        simpa [pushDelete, hl] using ⟨hs, hr.2⟩
      · simpa [pushDelete, hl] using ⟨hc, hr⟩

theorem pushInsert_proper {text : Text} (h : text ≠ []) {recent : List OperationComponent}
    (hr : ∀ c ∈ recent, c.Proper) : ∀ c ∈ pushInsert text recent, c.Proper := by
  have hc : (OperationComponent.string text).Proper := h
  have merged (s : Text) : (OperationComponent.string (s ++ text)).Proper :=
    show s ++ text ≠ [] by simp [h]
  match recent, hr with
  | [], _ => simpa [pushInsert] using hc
  | .string last :: rest, hr =>
    rw [List.forall_mem_cons] at hr
    simpa [pushInsert] using ⟨merged last, hr.2⟩
  | .number last :: .string previous :: rest, hr =>
    rw [List.forall_mem_cons, List.forall_mem_cons] at hr
    by_cases hl : last < 0
    · simpa [pushInsert, hl] using ⟨hr.1, merged previous, hr.2.2⟩
    · simpa [pushInsert, hl] using ⟨hc, hr⟩
  | [.number last], hr =>
    rw [List.forall_mem_cons] at hr
    by_cases hl : last < 0
    · simpa [pushInsert, hl] using ⟨hr.1, hc⟩
    · simpa [pushInsert, hl] using ⟨hc, hr.1⟩
  | .number last :: .number previous :: rest, hr =>
    rw [List.forall_mem_cons, List.forall_mem_cons] at hr
    by_cases hl : last < 0
    · simpa [pushInsert, hl] using ⟨hr.1, hc, hr.2⟩
    · simpa [pushInsert, hl] using ⟨hc, hr⟩

def retain (builder : OperationBuilder) (count : Int) : OperationBuilder :=
  if h : count ≤ 0 then builder
  else {
    recent := pushRetain count builder.recent
    base := builder.base + count
    target := builder.target + count
    accumulated := by
      have hc : 0 < count := by omega
      obtain ⟨hp, hb, ht⟩ := builder.accumulated
      refine ⟨pushRetain_proper hc hp, ?_, ?_⟩
      · rw [scriptOf_pushRetain hc, baseLen_append, baseLen_keeps, hb]; omega
      · rw [scriptOf_pushRetain hc, targetLen_append, targetLen_keeps, ht]; omega }

def insert (builder : OperationBuilder) (text : Text) : OperationBuilder :=
  if h : text.length = 0 then builder
  else {
    recent := pushInsert text builder.recent
    base := builder.base
    target := builder.target + text.length
    accumulated := by
      have hne : text ≠ [] := fun he => h (by rw [he]; rfl)
      obtain ⟨hp, hb, ht⟩ := builder.accumulated
      refine ⟨pushInsert_proper hne hp, ?_, ?_⟩
      · rw [(pushInsert_effect text builder.recent).base, baseLen_append, baseLen_puts, hb]; rfl
      · rw [targetLen_pushInsert, ht]; push_cast; rfl }

def delete (builder : OperationBuilder) (count : Int) : OperationBuilder :=
  if h : count ≤ 0 then builder
  else {
    recent := pushDelete count builder.recent
    base := builder.base + count
    target := builder.target
    accumulated := by
      have hc : 0 < count := by omega
      obtain ⟨hp, hb, ht⟩ := builder.accumulated
      refine ⟨pushDelete_proper hc hp, ?_, ?_⟩
      · rw [scriptOf_pushDelete hc, baseLen_append, baseLen_drops, hb]; omega
      · rw [scriptOf_pushDelete hc, targetLen_append, targetLen_drops, ht]; rfl }

def build (builder : OperationBuilder) : TextOperation :=
  ⟨builder.recent.reverse, builder.base, builder.target⟩

/-! What each call appends to the script. -/

theorem build_script (builder : OperationBuilder) : builder.build.script = builder.script := rfl

theorem build_wellFormed (builder : OperationBuilder) : builder.build.WellFormed where
  proper c hc := builder.accumulated.proper c (List.mem_reverse.mp hc)
  base := builder.accumulated.base
  target := builder.accumulated.target

@[simp] theorem empty_script : empty.script = [] := rfl

theorem retain_script (builder : OperationBuilder) (h : 0 ≤ count) :
    (builder.retain count).script = builder.script ++ keeps count.toNat := by
  unfold retain
  split
  · rw [show count.toNat = 0 by omega, keeps_zero, List.append_nil]
  · exact scriptOf_pushRetain (by omega) _

theorem delete_script (builder : OperationBuilder) (h : 0 ≤ count) :
    (builder.delete count).script = builder.script ++ drops count.toNat := by
  unfold delete
  split
  · rw [show count.toNat = 0 by omega, drops_zero, List.append_nil]
  · exact scriptOf_pushDelete (by omega) _

theorem insert_effect (builder : OperationBuilder) (text : Text) :
    SameEffect (builder.insert text).script (builder.script ++ puts text) := by
  unfold insert
  split
  · rename_i h
    rw [List.eq_nil_of_length_eq_zero h, puts_nil, List.append_nil]
  · exact pushInsert_effect text _

end OperationBuilder

/-- Rebuilds an operation from raw components, normalizing as it goes. -/
def createOperation (components : List OperationComponent) : TextOperation :=
  (components.foldl
    (fun builder component =>
      match component with
      | .string text => builder.insert text
      | .number n => if n > 0 then builder.retain n else builder.delete (-n))
    OperationBuilder.empty).build

/-- The identity operation over a document of `length` code units. -/
def identityOperation (length : Int) : TextOperation :=
  (OperationBuilder.empty.retain length).build

/-! ## applyOperation -/

/-- The loop of `applyOperation`: the parts it pushes, from `index` on. -/
def applyComponents (text : Text) : List OperationComponent → Nat → Text
  | [], _ => []
  | .string s :: components, index => s ++ applyComponents text components index
  | .number n :: components, index =>
    if n > 0 then
      (text.drop index).take n.toNat ++ applyComponents text components (index + n.toNat)
    else applyComponents text components (index + (-n).toNat)

def applyOperation (text : Text) (operation : TextOperation) : Except CollabError Text :=
  if (text.length : Int) ≠ operation.baseLength then
    .error ⟨"length_mismatch", "Operation expects a document of " ++
      toString operation.baseLength ++ " units, got " ++ toString text.length⟩
  else .ok (applyComponents text operation.components 0)

theorem act_keeps_of_length {k : Nat} {s t : Text} (hk : k = s.length)
    (h : act (keeps k) s = some t) : s = t := by
  subst hk
  rwa [act_keeps, Option.some.injEq] at h

theorem act_drops_of_length {k : Nat} {s t : Text} (hk : k = s.length)
    (h : act (drops k) s = some t) : t = [] := by
  subst hk
  rw [act_drops, Option.some.injEq] at h
  exact h.symm

theorem applyComponents_eq {text t : Text} {cs : List OperationComponent} {index : Nat}
    (h : act (scriptOf cs) (text.drop index) = some t) :
    applyComponents text cs index = t := by
  induction cs generalizing index t with
  | nil =>
    have hb := act_base h
    simp only [scriptOf_nil, baseLen_nil] at hb
    rw [List.eq_nil_of_length_eq_zero hb.symm] at h
    simpa [act, applyComponents] using h
  | cons c cs ih =>
    rw [scriptOf_cons, act_append] at h
    obtain ⟨x, hx, h⟩ := Option.bind_eq_some_iff.mp h
    obtain ⟨y, hy, rfl⟩ := Option.map_eq_some_iff.mp h
    have hlen := act_base hx
    cases c with
    | string s =>
      simp only [script_string, baseLen_puts, List.drop_zero, List.take_zero, act_puts,
        Option.some.injEq] at hx hy
      rw [applyComponents, hx, ih hy]
    | number n =>
      rw [applyComponents]
      split
      · rename_i hn
        simp only [script_retain hn, baseLen_keeps, List.drop_drop] at hx hy hlen
        rw [ih hy, act_keeps_of_length hlen hx]
      · rename_i hn
        have hs : (OperationComponent.number n).script = drops (-n).toNat := if_neg hn
        simp only [hs, baseLen_drops, List.drop_drop] at hx hy hlen
        rw [ih hy, act_drops_of_length hlen hx, List.nil_append]

/-- The operation is well formed and turns `before` into `after`. -/
structure Applies (operation : TextOperation) (before after : Text) : Prop where
  wellFormed : operation.WellFormed
  act : act operation.script before = some after

namespace Applies

variable {operation : TextOperation}

theorem base_length {before after : Text} (h : Applies operation before after) :
    operation.baseLength = before.length := by
  rw [h.wellFormed.base, act_base h.act]

theorem target_length {before after : Text} (h : Applies operation before after) :
    operation.targetLength = after.length := by
  rw [h.wellFormed.target, act_length h.act]

theorem apply {before after : Text} (h : Applies operation before after) :
    applyOperation before operation = .ok after := by
  rw [applyOperation, if_neg (not_not.mpr h.base_length.symm),
    applyComponents_eq (by simpa [TextOperation.script] using h.act)]

theorem of_base_length {before : Text} (hw : operation.WellFormed)
    (hb : operation.baseLength = before.length) : ∃ after, Applies operation before after := by
  have hl : baseLen operation.script = before.length := by
    have := hw.base
    omega
  obtain ⟨after, h⟩ := act_total hl
  exact ⟨after, hw, h⟩

end Applies

end AgenticGit.Collab
