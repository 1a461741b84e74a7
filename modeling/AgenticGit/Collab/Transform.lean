import AgenticGit.Collab.TextOperation

/- `composeOperations` and `transformOperations` of `text-operation.ts`.

   Each `for (;;)` loop is a recursion on the two component lists: the heads
   are the current `a` and `b`, and `advance`, `advanceDelete`, `advanceText`
   are the three forms of `a = .. === shared ? left[leftIndex++] : ..`.

   What is proved:
     1. `transformLoop_effect`, `composeLoop_effect` — a loop over components
        none of which is empty builds, up to effect, what the element-wise
        `transform` and `compose` of the scripts build. A loop consumes
        `shared` units of both heads where those consume one.
     2. `transformOperations_spec` — **the transformation property** of the
        source's comment, for well-formed operations of one base length.
     3. `composeOperations_spec` — the composition acts as one operation after
        the other. -/
namespace AgenticGit.Collab
open AgenticGit.EditScript

/-- `a === shared ? left[leftIndex++] : a - shared`. -/
def advance (a shared : Int) (rest : List OperationComponent) : List OperationComponent :=
  if a = shared then rest else .number (a - shared) :: rest

/-- `-a === shared ? left[leftIndex++] : a + shared`. -/
def advanceDelete (a shared : Int) (rest : List OperationComponent) : List OperationComponent :=
  if -a = shared then rest else .number (a + shared) :: rest

/-- `a.length === shared ? left[leftIndex++] : a.slice(shared)`. -/
def advanceText (a : Text) (shared : Int) (rest : List OperationComponent) :
    List OperationComponent :=
  if a.length = shared then rest else .string (a.drop shared.toNat) :: rest

theorem length_advance (a shared : Int) (rest : List OperationComponent) :
    (advance a shared rest).length = if a = shared then rest.length else rest.length + 1 := by
  unfold advance
  split <;> rfl

theorem length_advanceDelete (a shared : Int) (rest : List OperationComponent) :
    (advanceDelete a shared rest).length =
      if -a = shared then rest.length else rest.length + 1 := by
  unfold advanceDelete
  split <;> rfl

theorem length_advanceText (a : Text) (shared : Int) (rest : List OperationComponent) :
    (advanceText a shared rest).length =
      if a.length = shared then rest.length else rest.length + 1 := by
  unfold advanceText
  split <;> rfl

/-! What is left of a component after `shared` of its units. -/

theorem scriptOf_advance {a : Int} (shared : Int) (ha : 0 < a) (h₀ : 0 ≤ shared) (hle : shared ≤ a)
    (rest : List OperationComponent) :
    scriptOf (.number a :: rest) = keeps shared.toNat ++ scriptOf (advance a shared rest) := by
  rw [scriptOf_cons, script_retain ha, advance]
  split
  · rename_i h
    rw [h]
  · have hr : 0 < a - shared := by omega
    rw [scriptOf_cons, script_retain hr, ← List.append_assoc, ← keeps_add,
      show shared.toNat + (a - shared).toNat = a.toNat by omega]

theorem scriptOf_advanceDelete {a : Int} (shared : Int) (ha : a < 0) (h₀ : 0 ≤ shared)
    (hle : shared ≤ -a) (rest : List OperationComponent) :
    scriptOf (.number a :: rest) =
      drops shared.toNat ++ scriptOf (advanceDelete a shared rest) := by
  rw [scriptOf_cons, script_delete ha, advanceDelete]
  split
  · rename_i h
    rw [h]
  · have hr : a + shared < 0 := by omega
    rw [scriptOf_cons, script_delete hr, ← List.append_assoc, ← drops_add,
      show shared.toNat + (-(a + shared)).toNat = (-a).toNat by omega]

theorem scriptOf_advanceText (a : Text) (shared : Int)
    (rest : List OperationComponent) :
    scriptOf (.string a :: rest) =
      puts (a.take shared.toNat) ++ scriptOf (advanceText a shared rest) := by
  rw [scriptOf_cons, script_string, advanceText]
  split
  · rename_i h
    rw [← h, Int.toNat_natCast, List.take_length]
  · rw [scriptOf_cons, script_string, ← List.append_assoc, ← puts_append, List.take_append_drop]

theorem advance_proper {a shared : Int} {rest : List OperationComponent}
    (h : ∀ c ∈ rest, c.Proper) : ∀ c ∈ advance a shared rest, c.Proper := by
  unfold advance
  split
  · exact h
  · exact List.forall_mem_cons.mpr ⟨show a - shared ≠ 0 by omega, h⟩

theorem advanceDelete_proper {a shared : Int} {rest : List OperationComponent}
    (h : ∀ c ∈ rest, c.Proper) : ∀ c ∈ advanceDelete a shared rest, c.Proper := by
  unfold advanceDelete
  split
  · exact h
  · exact List.forall_mem_cons.mpr ⟨show a + shared ≠ 0 by omega, h⟩

theorem advanceText_proper {a : Text} {shared : Int} {rest : List OperationComponent}
    (h₀ : 0 ≤ shared) (hle : shared ≤ a.length) (h : ∀ c ∈ rest, c.Proper) :
    ∀ c ∈ advanceText a shared rest, c.Proper := by
  unfold advanceText
  split
  · exact h
  · have hd : a.drop shared.toNat ≠ [] := by
      rw [ne_eq, List.drop_eq_nil_iff]
      omega
    exact List.forall_mem_cons.mpr ⟨hd, h⟩

/-! ## transformOperations -/

def transformMismatch (message : String) : CollabError := ⟨"transform_mismatch", message⟩

/-- The loop of `transformOperations`. -/
def transformLoop : List OperationComponent → List OperationComponent →
    OperationBuilder → OperationBuilder → Except CollabError (TextOperation × TextOperation)
  | [], [], firstPrime, secondPrime => .ok (firstPrime.build, secondPrime.build)
  | .string a :: left, right, firstPrime, secondPrime =>
    transformLoop left right (firstPrime.insert a) (secondPrime.retain a.length)
  | left, .string b :: right, firstPrime, secondPrime =>
    transformLoop left right (firstPrime.retain b.length) (secondPrime.insert b)
  | .number a :: left, .number b :: right, firstPrime, secondPrime =>
    if a > 0 ∧ b > 0 then
      let shared := min a b
      transformLoop (advance a shared left) (advance b shared right)
        (firstPrime.retain shared) (secondPrime.retain shared)
    else if a < 0 ∧ b < 0 then
      let shared := min (-a) (-b)
      transformLoop (advanceDelete a shared left) (advanceDelete b shared right)
        firstPrime secondPrime
    else if a < 0 then
      let shared := min (-a) b
      transformLoop (advanceDelete a shared left) (advance b shared right)
        (firstPrime.delete shared) secondPrime
    else
      let shared := min a (-b)
      transformLoop (advance a shared left) (advanceDelete b shared right)
        firstPrime (secondPrime.delete shared)
  | _, _, _, _ => .error (transformMismatch "The operations have inconsistent lengths")
termination_by left right => left.length + right.length
decreasing_by
  all_goals simp only [List.length_cons, length_advance, length_advanceDelete]
  all_goals first | omega | (split <;> split <;> omega)

def transformOperations (first second : TextOperation) :
    Except CollabError (TextOperation × TextOperation) :=
  if first.baseLength ≠ second.baseLength then
    .error (transformMismatch "Transformed operations must share a base document length")
  else transformLoop first.components second.components .empty .empty

/-- An operation built from `builder` by appending, up to effect, the script
`rest`. -/
structure Extends (operation : TextOperation) (builder : OperationBuilder)
    (rest : Script CodeUnit) : Prop where
  wellFormed : operation.WellFormed
  effect : SameEffect operation.script (builder.script ++ rest)

theorem Extends.build (builder : OperationBuilder) : Extends builder.build builder [] :=
  ⟨builder.build_wellFormed, .of_eq (List.append_nil _).symm⟩

theorem Extends.shift {operation : TextOperation} {builder next : OperationBuilder}
    {appended rest : Script CodeUnit} (h : Extends operation next rest)
    (hn : SameEffect next.script (builder.script ++ appended)) :
    Extends operation builder (appended ++ rest) :=
  ⟨h.wellFormed, h.effect.trans <|
    (hn.append (.refl rest)).trans (.of_eq (List.append_assoc _ _ _))⟩

theorem scriptOf_number {n : Int} (hn : n ≠ 0) (cs : List OperationComponent) :
    ∃ rest, scriptOf (.number n :: cs) = .keep :: rest ∨
      scriptOf (.number n :: cs) = .drop :: rest := by
  rcases lt_or_gt_of_ne hn with h | h
  · obtain ⟨k, hk⟩ : ∃ k, (-n).toNat = k + 1 := ⟨(-n).toNat - 1, by omega⟩
    exact ⟨drops k ++ scriptOf cs, .inr (by simp [script_delete h, hk])⟩
  · obtain ⟨k, hk⟩ : ∃ k, n.toNat = k + 1 := ⟨n.toNat - 1, by omega⟩
    exact ⟨keeps k ++ scriptOf cs, .inl (by simp [script_retain h, hk])⟩

variable {cs : List OperationComponent}

theorem scriptOf_ne_put (hp : ∀ c ∈ cs, c.Proper)
    (hs : ∀ text rest, cs = .string text :: rest → False) (u : CodeUnit) (rest : Script CodeUnit) :
    scriptOf cs ≠ .put u :: rest := by
  match cs, hp, hs with
  | [], _, _ => simp
  | .string text :: cs, _, hs => exact (hs text cs rfl).elim
  | .number n :: cs, hp, _ =>
    obtain ⟨tail, h | h⟩ := scriptOf_number (List.forall_mem_cons.mp hp).1 cs <;> simp [h]

/-- **The loop of `transformOperations` is `transform`.** -/
theorem transformLoop_effect {left right : List OperationComponent}
    (firstPrime secondPrime : OperationBuilder) {p : Script CodeUnit × Script CodeUnit}
    (hl : ∀ c ∈ left, c.Proper) (hr : ∀ c ∈ right, c.Proper)
    (h : transform (scriptOf left) (scriptOf right) = some p) :
    ∃ first second, transformLoop left right firstPrime secondPrime = .ok (first, second) ∧
      Extends first firstPrime p.1 ∧ Extends second secondPrime p.2 := by
  fun_induction transformLoop left right firstPrime secondPrime generalizing p with
  | case1 firstPrime secondPrime =>
    obtain rfl : ([], []) = p := by simpa [transform] using h
    exact ⟨_, _, rfl, .build firstPrime, .build secondPrime⟩
  | case2 a left right firstPrime secondPrime ih =>
    rw [scriptOf_cons, script_string, transform_puts_left] at h
    obtain ⟨q, hq, rfl⟩ := Option.map_eq_some_iff.mp h
    obtain ⟨first, second, he, h₁, h₂⟩ := ih (List.forall_mem_cons.mp hl).2 hr hq
    exact ⟨first, second, he, h₁.shift (firstPrime.insert_effect a),
      h₂.shift (.of_eq (secondPrime.retain_script (by omega)))⟩
  | case3 left b right firstPrime secondPrime hs ih =>
    rw [scriptOf_cons, script_string, transform_puts_right (scriptOf_ne_put hl hs)] at h
    obtain ⟨q, hq, rfl⟩ := Option.map_eq_some_iff.mp h
    obtain ⟨first, second, he, h₁, h₂⟩ := ih hl (List.forall_mem_cons.mp hr).2 hq
    exact ⟨first, second, he, h₁.shift (.of_eq (firstPrime.retain_script (by omega))),
      h₂.shift (secondPrime.insert_effect b)⟩
  | case4 a left b right firstPrime secondPrime hab shared =>
    rename_i ih
    -- retain / retain
    rw [scriptOf_advance shared hab.1 (by omega) (by omega),
      scriptOf_advance shared hab.2 (by omega) (by omega), transform_keeps] at h
    obtain ⟨q, hq, rfl⟩ := Option.map_eq_some_iff.mp h
    obtain ⟨first, second, he, h₁, h₂⟩ := ih (advance_proper (List.forall_mem_cons.mp hl).2)
      (advance_proper (List.forall_mem_cons.mp hr).2) hq
    exact ⟨first, second, he, h₁.shift (.of_eq (firstPrime.retain_script (by omega))),
      h₂.shift (.of_eq (secondPrime.retain_script (by omega)))⟩
  | case5 a left b right firstPrime secondPrime hab hab' shared =>
    rename_i ih
    -- both deleted the same text
    rw [scriptOf_advanceDelete shared hab'.1 (by omega) (by omega),
      scriptOf_advanceDelete shared hab'.2 (by omega) (by omega),
      transform_drops] at h
    exact ih (advanceDelete_proper (List.forall_mem_cons.mp hl).2)
      (advanceDelete_proper (List.forall_mem_cons.mp hr).2) h
  | case6 a left b right firstPrime secondPrime hab hab' ha shared =>
    rename_i ih
    -- delete / retain
    have hb : 0 < b := by
      have : b ≠ 0 := (List.forall_mem_cons.mp hr).1
      omega
    rw [scriptOf_advanceDelete shared ha (by omega) (by omega),
      scriptOf_advance shared hb (by omega) (by omega),
      transform_drops_keeps] at h
    obtain ⟨q, hq, rfl⟩ := Option.map_eq_some_iff.mp h
    obtain ⟨first, second, he, h₁, h₂⟩ := ih (advanceDelete_proper (List.forall_mem_cons.mp hl).2)
      (advance_proper (List.forall_mem_cons.mp hr).2) hq
    exact ⟨first, second, he, h₁.shift (.of_eq (firstPrime.delete_script (by omega))), h₂⟩
  | case7 a left b right firstPrime secondPrime hab hab' ha shared =>
    rename_i ih
    -- retain / delete
    have ha' : 0 < a := by
      have : a ≠ 0 := (List.forall_mem_cons.mp hl).1
      omega
    have hb : b < 0 := by
      have : b ≠ 0 := (List.forall_mem_cons.mp hr).1
      omega
    rw [scriptOf_advance shared ha' (by omega) (by omega),
      scriptOf_advanceDelete shared hb (by omega) (by omega),
      transform_keeps_drops] at h
    obtain ⟨q, hq, rfl⟩ := Option.map_eq_some_iff.mp h
    obtain ⟨first, second, he, h₁, h₂⟩ := ih (advance_proper (List.forall_mem_cons.mp hl).2)
      (advanceDelete_proper (List.forall_mem_cons.mp hr).2) hq
    exact ⟨first, second, he, h₁, h₂.shift (.of_eq (secondPrime.delete_script (by omega)))⟩
  | case8 left right firstPrime secondPrime h₁ h₂ h₃ h₄ =>
    -- one list has run out while the other still reads
    rcases left with _ | ⟨_ | a, left⟩ <;> rcases right with _ | ⟨_ | b, right⟩
    · exact (h₁ rfl rfl).elim
    · obtain ⟨rest, hb | hb⟩ := scriptOf_number (List.forall_mem_cons.mp hr).1 right <;>
        simp [hb, transform] at h
    · exact (h₃ _ _ rfl).elim
    · obtain ⟨rest, ha | ha⟩ := scriptOf_number (List.forall_mem_cons.mp hl).1 left <;>
        simp [ha, transform] at h
    · exact (h₄ _ _ _ _ rfl rfl).elim
    · exact (h₃ _ _ rfl).elim
    all_goals exact (h₂ _ _ rfl).elim

/-- **The transformation property.** Operations over one document can each be
rebased over the other, and both orders reach the same text. -/
theorem transformOperations_spec {first second : TextOperation} {base left right : Text}
    (h₁ : Applies first base left) (h₂ : Applies second base right) :
    ∃ first' second' merged, transformOperations first second = .ok (first', second') ∧
      Applies first' right merged ∧ Applies second' left merged := by
  have hlen : baseLen first.script = baseLen second.script :=
    (act_base h₁.act).trans (act_base h₂.act).symm
  obtain ⟨p, hp⟩ := transform_total hlen
  obtain ⟨first', second', he, ⟨hw₁, hs₁⟩, ⟨hw₂, hs₂⟩⟩ :=
    transformLoop_effect .empty .empty h₁.wellFormed.proper h₂.wellFormed.proper hp
  have hbase : first.baseLength = second.baseLength := by
    rw [h₁.base_length, h₂.base_length]
  have hright : baseLen p.1 = right.length := by
    rw [(transform_lengths hp).1, act_length h₂.act]
  obtain ⟨merged, hm⟩ := act_total hright
  -- the diamond says the other order reaches `merged` too
  have hd := transform_diamond hp base
  rw [h₁.act, h₂.act, Option.bind_some, Option.bind_some, hm] at hd
  refine ⟨first', second', merged, ?_, ⟨hw₁, ?_⟩, ⟨hw₂, ?_⟩⟩
  · rw [transformOperations, if_neg (not_not.mpr hbase), he]
  · rw [hs₁.act, OperationBuilder.empty_script, List.nil_append, hm]
  · rw [hs₂.act, OperationBuilder.empty_script, List.nil_append, hd]

/-! ## composeOperations -/

def composeMismatch (message : String) : CollabError := ⟨"compose_mismatch", message⟩

/-- The loop of `composeOperations`. -/
def composeLoop : List OperationComponent → List OperationComponent → OperationBuilder →
    Except CollabError TextOperation
  | [], [], builder => .ok builder.build
  | .number a :: left, right, builder =>
    if a < 0 then composeLoop left right (builder.delete (-a))
    else
      match right with
      | .string b :: right => composeLoop (.number a :: left) right (builder.insert b)
      | [] => .error (composeMismatch "The operations have inconsistent lengths")
      | .number b :: right =>
        if b > 0 then
          let shared := min a b
          composeLoop (advance a shared left) (advance b shared right) (builder.retain shared)
        else
          let shared := min a (-b)
          composeLoop (advance a shared left) (advanceDelete b shared right)
            (builder.delete shared)
  | left, .string b :: right, builder => composeLoop left right (builder.insert b)
  | .string a :: left, .number b :: right, builder =>
    if b < 0 then
      let shared := min (a.length : Int) (-b)
      composeLoop (advanceText a shared left) (advanceDelete b shared right) builder
    else
      let shared := min (a.length : Int) b
      composeLoop (advanceText a shared left) (advance b shared right)
        (builder.insert (a.take shared.toNat))
  | _, _, _ => .error (composeMismatch "The operations have inconsistent lengths")
termination_by left right => left.length + right.length
decreasing_by
  all_goals simp only [List.length_cons, length_advance, length_advanceDelete, length_advanceText]
  all_goals first | omega | (split <;> split <;> omega)

def composeOperations (first second : TextOperation) : Except CollabError TextOperation :=
  if first.targetLength ≠ second.baseLength then
    .error (composeMismatch "The second operation does not apply to the first operation's output")
  else composeLoop first.components second.components .empty

theorem scriptOf_ne_drop (hp : ∀ c ∈ cs, c.Proper) (hs : ∀ n rest, cs = .number n :: rest → ¬n < 0)
    (rest : Script CodeUnit) : scriptOf cs ≠ .drop :: rest := by
  match cs, hp, hs with
  | [], _, _ => simp
  | .number n :: cs, hp, hs =>
    have hn : n ≠ 0 := (List.forall_mem_cons.mp hp).1
    have hpos : 0 < n := by
      have := hs n cs rfl
      omega
    obtain ⟨k, hk⟩ : ∃ k, n.toNat = k + 1 := ⟨n.toNat - 1, by omega⟩
    simp [script_retain hpos, hk]
  | .string text :: cs, hp, _ =>
    have ht : text ≠ [] := (List.forall_mem_cons.mp hp).1
    obtain ⟨c, tail, rfl⟩ := List.exists_cons_of_ne_nil ht
    simp [script_string]

/-- **The loop of `composeOperations` is `compose`.** -/
theorem composeLoop_effect {left right : List OperationComponent} (builder : OperationBuilder)
    {cs : Script CodeUnit} (hl : ∀ c ∈ left, c.Proper) (hr : ∀ c ∈ right, c.Proper)
    (h : compose (scriptOf left) (scriptOf right) = some cs) :
    ∃ operation, composeLoop left right builder = .ok operation ∧
      Extends operation builder cs := by
  fun_induction composeLoop left right builder generalizing cs with
  | case1 builder =>
    obtain rfl : [] = cs := by simpa [compose] using h
    exact ⟨_, rfl, .build builder⟩
  | case2 a left right builder ha ih =>
    rw [scriptOf_cons, script_delete ha, compose_drops_left] at h
    obtain ⟨ds, hds, rfl⟩ := Option.map_eq_some_iff.mp h
    obtain ⟨operation, he, ho⟩ := ih (List.forall_mem_cons.mp hl).2 hr hds
    exact ⟨operation, he, ho.shift (.of_eq (builder.delete_script (by omega)))⟩
  | case3 a left builder ha b right ih =>
    rw [scriptOf_cons (.string b), script_string,
      compose_puts_right (scriptOf_ne_drop hl fun n rest he => by cases he; exact ha)] at h
    obtain ⟨ds, hds, rfl⟩ := Option.map_eq_some_iff.mp h
    obtain ⟨operation, he, ho⟩ := ih hl (List.forall_mem_cons.mp hr).2 hds
    exact ⟨operation, he, ho.shift (builder.insert_effect b)⟩
  | case4 a left builder ha =>
    have hne : a ≠ 0 := (List.forall_mem_cons.mp hl).1
    obtain ⟨k, hk⟩ : ∃ k, a.toNat = k + 1 := ⟨a.toNat - 1, by omega⟩
    simp [script_retain (show 0 < a by omega), hk, compose] at h
  | case5 a left builder ha b right hb shared =>
    -- retain / retain
    rename_i ih
    have ha' : 0 < a := by
      have : a ≠ 0 := (List.forall_mem_cons.mp hl).1
      omega
    rw [scriptOf_advance shared ha' (by omega) (by omega),
      scriptOf_advance shared hb (by omega) (by omega), compose_keeps] at h
    obtain ⟨ds, hds, rfl⟩ := Option.map_eq_some_iff.mp h
    obtain ⟨operation, he, ho⟩ := ih (advance_proper (List.forall_mem_cons.mp hl).2)
      (advance_proper (List.forall_mem_cons.mp hr).2) hds
    exact ⟨operation, he, ho.shift (.of_eq (builder.retain_script (by omega)))⟩
  | case6 a left builder ha b right hb shared =>
    -- retain / delete
    rename_i ih
    have ha' : 0 < a := by
      have : a ≠ 0 := (List.forall_mem_cons.mp hl).1
      omega
    have hb' : b < 0 := by
      have : b ≠ 0 := (List.forall_mem_cons.mp hr).1
      omega
    rw [scriptOf_advance shared ha' (by omega) (by omega),
      scriptOf_advanceDelete shared hb' (by omega) (by omega), compose_keeps_drops] at h
    obtain ⟨ds, hds, rfl⟩ := Option.map_eq_some_iff.mp h
    obtain ⟨operation, he, ho⟩ := ih (advance_proper (List.forall_mem_cons.mp hl).2)
      (advanceDelete_proper (List.forall_mem_cons.mp hr).2) hds
    exact ⟨operation, he, ho.shift (.of_eq (builder.delete_script (by omega)))⟩
  | case7 left b right builder hs ih =>
    rw [scriptOf_cons, script_string,
      compose_puts_right (scriptOf_ne_drop hl fun n rest he => (hs n rest he).elim)] at h
    obtain ⟨ds, hds, rfl⟩ := Option.map_eq_some_iff.mp h
    obtain ⟨operation, he, ho⟩ := ih hl (List.forall_mem_cons.mp hr).2 hds
    exact ⟨operation, he, ho.shift (builder.insert_effect b)⟩
  | case8 a left b right builder hb shared =>
    -- insert / delete: the second operation eats what the first inserted
    rename_i ih
    have hlen : shared.toNat = (a.take shared.toNat).length := by
      rw [List.length_take]
      omega
    rw [scriptOf_advanceText a shared, scriptOf_advanceDelete shared hb (by omega) (by omega)] at h
    nth_rewrite 2 [hlen] at h
    rw [compose_puts_drops] at h
    exact ih (advanceText_proper (by omega) (by omega) (List.forall_mem_cons.mp hl).2)
      (advanceDelete_proper (List.forall_mem_cons.mp hr).2) h
  | case9 a left b right builder hb shared =>
    -- insert / retain
    rename_i ih
    have hb' : 0 < b := by
      have : b ≠ 0 := (List.forall_mem_cons.mp hr).1
      omega
    have hlen : shared.toNat = (a.take shared.toNat).length := by
      rw [List.length_take]
      omega
    rw [scriptOf_advanceText a shared, scriptOf_advance shared hb' (by omega) (by omega)] at h
    nth_rewrite 2 [hlen] at h
    rw [compose_puts_keeps] at h
    obtain ⟨ds, hds, rfl⟩ := Option.map_eq_some_iff.mp h
    obtain ⟨operation, he, ho⟩ := ih
      (advanceText_proper (by omega) (by omega) (List.forall_mem_cons.mp hl).2)
      (advance_proper (List.forall_mem_cons.mp hr).2) hds
    exact ⟨operation, he, ho.shift (builder.insert_effect _)⟩
  | case10 left right builder h₁ h₂ h₃ h₄ =>
    -- one list has run out while the other still reads
    rcases left with _ | ⟨a | a, left⟩ <;> rcases right with _ | ⟨b | b, right⟩
    · exact (h₁ rfl rfl).elim
    · obtain ⟨rest, hb | hb⟩ := scriptOf_number (List.forall_mem_cons.mp hr).1 right <;>
        simp [hb, compose] at h
    · exact (h₃ _ _ rfl).elim
    iterate 3 exact (h₂ _ _ rfl).elim
    · have hne : a ≠ [] := (List.forall_mem_cons.mp hl).1
      obtain ⟨c, rest, rfl⟩ := List.exists_cons_of_ne_nil hne
      simp [script_string, compose] at h
    · exact (h₄ _ _ _ _ rfl rfl).elim
    · exact (h₃ _ _ rfl).elim

/-- **The composition is the single operation equivalent to both.** -/
theorem composeOperations_spec {first second : TextOperation} {base middle last : Text}
    (h₁ : Applies first base middle) (h₂ : Applies second middle last) :
    ∃ operation, composeOperations first second = .ok operation ∧
      Applies operation base last := by
  have hlen : targetLen first.script = baseLen second.script :=
    (act_length h₁.act).symm.trans (act_base h₂.act).symm
  obtain ⟨cs, hcs⟩ := compose_total hlen
  obtain ⟨operation, he, hw, hs⟩ :=
    composeLoop_effect .empty h₁.wellFormed.proper h₂.wellFormed.proper hcs
  have hmiddle : first.targetLength = second.baseLength := by
    rw [h₁.target_length, h₂.base_length]
  refine ⟨operation, ?_, hw, ?_⟩
  · rw [composeOperations, if_neg (not_not.mpr hmiddle), he]
  · rw [hs.act, OperationBuilder.empty_script, List.nil_append, act_compose hcs, h₁.act,
      Option.bind_some, h₂.act]

end AgenticGit.Collab
