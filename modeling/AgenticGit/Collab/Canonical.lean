import AgenticGit.Lib.NormalScript
import AgenticGit.Collab.Transform

/- The canonical form of an operation: what `OperationBuilder` says it accumulates.

   Neighbours are of different kinds and a delete is not followed by an insert, so the
   script of a canonical operation is normal and the operation the only canonical one
   of its effect.

   What is proved:
     1. `canonical_unique` — two canonical component lists of one effect are the same.
     2. `transform_diamond_components` — for every two built operations over documents of
        one length, transformation succeeds, both compositions around the diamond are the
        same operation, and of two insertions at one place the first operation's text
        comes first.
     3. `compose_sequential` — composition of operations whose lengths meet succeeds, is
        canonical and acts as one after the other; it is associative, and throws when
        the lengths do not meet. -/
namespace AgenticGit.Collab
open AgenticGit.EditScript

/-! ## Canonical components -/

/-- Whether the second component may come right after the first. -/
def OperationComponent.Precedes : OperationComponent → OperationComponent → Prop
  | .number m, .number n => (0 < m ∧ n < 0) ∨ (m < 0 ∧ 0 < n)
  | .number m, .string _ => 0 < m
  | .string _, .number _ => True
  | .string _, .string _ => False

instance : DecidableRel OperationComponent.Precedes
  | .number m, .number n => inferInstanceAs (Decidable ((0 < m ∧ n < 0) ∨ (m < 0 ∧ 0 < n)))
  | .number m, .string _ => inferInstanceAs (Decidable (0 < m))
  | .string _, .number _ => isTrue trivial
  | .string _, .string _ => isFalse id

/-- Adjacent components of one kind are merged, empty ones are gone, and an insert next
to a delete comes before it. -/
structure Canonical (components : List OperationComponent) : Prop where
  proper : ∀ component ∈ components, component.Proper
  chain : components.IsChain OperationComponent.Precedes

variable {c : OperationComponent} {cs ds : List OperationComponent}

theorem Canonical.tail {cs : List OperationComponent} (h : Canonical (c :: cs)) : Canonical cs :=
  ⟨(List.forall_mem_cons.mp h.proper).2, List.IsChain.tail h.chain⟩

theorem Canonical.append (h : Canonical (cs ++ ds)) : Canonical cs ∧ Canonical ds := by
  obtain ⟨hc, hd⟩ := List.forall_mem_append.mp h.proper
  obtain ⟨hcs, hds, -⟩ := List.isChain_append.mp h.chain
  exact ⟨⟨hc, hcs⟩, hd, hds⟩

/-- An operation as `createOperation` yields it. -/
structure TextOperation.Built (operation : TextOperation) : Prop where
  wellFormed : operation.WellFormed
  chain : operation.components.IsChain OperationComponent.Precedes

theorem TextOperation.Built.canonical {operation : TextOperation} (h : operation.Built) :
    Canonical operation.components := ⟨h.wellFormed.proper, h.chain⟩

/-! ## Kinds -/

inductive Kind where
  | retain | delete | insert
  deriving DecidableEq, Repr

def atomKind : Atom CodeUnit → Kind
  | .keep => .retain
  | .drop => .delete
  | .put _ => .insert

def OperationComponent.kind : OperationComponent → Kind
  | .number n => if 0 < n then .retain else .delete
  | .string _ => .insert

theorem kind_retain {n : Int} (h : 0 < n) : (OperationComponent.number n).kind = .retain := if_pos h

theorem kind_delete {n : Int} (h : ¬0 < n) : (OperationComponent.number n).kind = .delete := if_neg h

theorem kind_number_ne (n : Int) : (OperationComponent.number n).kind ≠ .insert := by
  by_cases hn : 0 < n
  · rw [kind_retain hn]
    nofun
  · rw [kind_delete hn]
    nofun

theorem script_drops {n : Int} (h : ¬0 < n) :
    (OperationComponent.number n).script = drops (-n).toNat := if_neg h

theorem Precedes.kind_ne {c d : OperationComponent} (h : c.Precedes d) : c.kind ≠ d.kind := by
  cases c with
  | number m =>
    cases d with
    | number n =>
      rcases h with ⟨hm, hn⟩ | ⟨hm, hn⟩
      · simp [OperationComponent.kind, hm, not_lt_of_gt hn]
      · simp [OperationComponent.kind, hn, not_lt_of_gt hm]
    | string text =>
      have hm : 0 < m := h
      simp [OperationComponent.kind, hm]
  | string text =>
    cases d with
    | number n => exact (kind_number_ne n).symm
    | string text' => exact h.elim

theorem kind_script (c : OperationComponent) : ∀ a ∈ c.script, atomKind a = c.kind := by
  intro a ha
  cases c with
  | number n =>
    by_cases hn : 0 < n
    · rw [script_retain hn] at ha
      rw [List.eq_of_mem_replicate ha, kind_retain hn]
      rfl
    · rw [script_drops hn] at ha
      rw [List.eq_of_mem_replicate ha, kind_delete hn]
      rfl
  | string text =>
    obtain ⟨u, -, rfl⟩ := List.mem_map.mp ha
    rfl

theorem script_ne_nil (h : c.Proper) : c.script ≠ [] := by
  cases c with
  | number n =>
    have hn : n ≠ 0 := h
    rw [ne_eq, ← List.length_eq_zero_iff]
    by_cases hpos : 0 < n
    · rw [script_retain hpos, keeps, List.length_replicate]
      omega
    · rw [script_drops hpos, drops, List.length_replicate]
      omega
  | string text =>
    intro heq
    exact h (List.map_eq_nil_iff.mp heq)

theorem kind_head (cs : List OperationComponent) (h : c.Proper) :
    ∃ a rest, scriptOf (c :: cs) = a :: rest ∧ atomKind a = c.kind := by
  obtain ⟨a, rest, hscript⟩ := List.exists_cons_of_ne_nil (script_ne_nil h)
  refine ⟨a, rest ++ scriptOf cs, ?_, kind_script c a ?_⟩
  · rw [scriptOf_cons, hscript, List.cons_append]
  · rw [hscript]
    exact List.mem_cons_self

theorem kind_rest {cs : List OperationComponent} (h : Canonical (c :: cs)) :
    ∀ a ∈ (scriptOf cs).head?, ¬atomKind a = c.kind := by
  intro a ha
  cases cs with
  | nil => cases ha
  | cons d ds =>
    obtain ⟨b, rest, hscript, hkind⟩ := kind_head ds (List.forall_mem_cons.mp h.tail.proper).1
    rw [hscript] at ha
    obtain rfl := Option.some.inj ha
    rw [hkind]
    exact fun heq => Precedes.kind_ne (List.isChain_cons_cons.mp h.chain).1 heq.symm

theorem script_injective {c d : OperationComponent} (hc : c.Proper) (hd : d.Proper)
    (h : c.script = d.script) : c = d := by
  have hkind : c.kind = d.kind := by
    obtain ⟨a, rest, hscript⟩ := List.exists_cons_of_ne_nil (script_ne_nil hc)
    have ha : a ∈ c.script := by
      rw [hscript]
      exact List.mem_cons_self
    rw [← kind_script c a ha, ← kind_script d a (h ▸ ha)]
  have hlength := congrArg List.length h
  cases c with
  | number m =>
    have hm : m ≠ 0 := hc
    cases d with
    | number n =>
      have hn : n ≠ 0 := hd
      by_cases hm' : 0 < m
      · by_cases hn' : 0 < n
        · rw [script_retain hm', script_retain hn', keeps, keeps, List.length_replicate,
            List.length_replicate] at hlength
          congr 1
          omega
        · rw [kind_retain hm', kind_delete hn'] at hkind
          cases hkind
      · by_cases hn' : 0 < n
        · rw [kind_delete hm', kind_retain hn'] at hkind
          cases hkind
        · rw [script_drops hm', script_drops hn', drops, drops, List.length_replicate,
            List.length_replicate] at hlength
          congr 1
          omega
    | string text => exact absurd hkind (kind_number_ne m)
  | string text =>
    cases d with
    | number n => exact absurd hkind.symm (kind_number_ne n)
    | string text' =>
      congr 1
      exact List.map_injective_iff.mpr (fun _ _ => Atom.put.inj) h

/-- **A canonical list is known from its script.** -/
theorem scriptOf_injective (hc : Canonical cs) (hd : Canonical ds) (h : scriptOf cs = scriptOf ds) :
    cs = ds := by
  induction cs generalizing ds with
  | nil =>
    cases ds with
    | nil => rfl
    | cons d ds =>
      obtain ⟨a, rest, hscript, -⟩ := kind_head ds (List.forall_mem_cons.mp hd.proper).1
      rw [hscript] at h
      cases h
  | cons c cs ih =>
    have hpc := (List.forall_mem_cons.mp hc.proper).1
    obtain ⟨a, rest, hscript, hkind⟩ := kind_head cs hpc
    cases ds with
    | nil =>
      rw [hscript] at h
      cases h
    | cons d ds =>
      have hpd := (List.forall_mem_cons.mp hd.proper).1
      obtain ⟨b, rest', hscript', hkind'⟩ := kind_head ds hpd
      have hab : c.kind = d.kind := by
        rw [hscript, hscript'] at h
        rw [← hkind, ← hkind', (List.cons.inj h).1]
      obtain ⟨hhead, htail⟩ := append_run_inj (p := fun a => atomKind a = c.kind) (kind_script c)
        (by rw [hab]; exact kind_script d) (kind_rest hc) (by rw [hab]; exact kind_rest hd) h
      rw [script_injective hpc hpd hhead, ih hc.tail hd.tail htail]

theorem Canonical.normal {cs : List OperationComponent} (h : Canonical cs) :
    Normal (scriptOf cs) := by
  induction cs with
  | nil => exact List.IsChain.nil
  | cons c cs ih =>
    rw [scriptOf_cons]
    refine List.isChain_append.mpr ⟨?_, ih h.tail, ?_⟩
    · cases c with
      | number n =>
        by_cases hn : 0 < n
        · rw [script_retain hn]
          exact List.isChain_replicate_of_rel _ nofun
        · rw [script_drops hn]
          exact List.isChain_replicate_of_rel _ nofun
      | string text =>
        rw [script_string]
        refine List.Pairwise.isChain (List.pairwise_map.mpr ?_)
        exact List.pairwise_of_forall fun _ _ => nofun
    · -- a delete is not followed by an insert
      rintro a ha b hb rfl u rfl
      have hkind := kind_script c _ (List.mem_of_getLast? ha)
      cases cs with
      | nil => cases hb
      | cons d ds =>
        have hd := (List.forall_mem_cons.mp h.tail.proper).1
        obtain ⟨b, rest, hscript, hkind'⟩ := kind_head ds hd
        rw [hscript] at hb
        obtain rfl := Option.some.inj hb
        have hprecedes := (List.isChain_cons_cons.mp h.chain).1
        cases c with
        | string text => cases hkind
        | number m =>
          cases d with
          | number n => exact kind_number_ne n hkind'.symm
          | string text =>
            rw [kind_retain hprecedes] at hkind
            cases hkind

instance : Nontrivial CodeUnit := ⟨⟨0, 1, by decide⟩⟩

/-- **Two canonical lists of one effect are the same.** -/
theorem canonical_unique (hc : Canonical cs) (hd : Canonical ds)
    (h : SameEffect (scriptOf cs) (scriptOf ds)) : cs = ds :=
  scriptOf_injective hc hd (normal_unique hc.normal hd.normal h)

/-! ## What is built is canonical -/

/-- What an `OperationBuilder` has accumulated, newest first, is canonical as far as
neighbours go. -/
def Tidy (recent : List OperationComponent) : Prop := recent.IsChain fun c d => d.Precedes c

section
open OperationBuilder

theorem precedes_sign {c : OperationComponent} {m n : Int} (hsign : 0 < m ↔ 0 < n)
    (hsign' : m < 0 ↔ n < 0) (h : c.Precedes (.number m)) : c.Precedes (.number n) := by
  cases c with
  | string text => trivial
  | number k =>
    rcases h with ⟨hk, hm⟩ | ⟨hk, hm⟩
    · exact .inl ⟨hk, hsign'.mp hm⟩
    · exact .inr ⟨hk, hsign.mp hm⟩

theorem precedes_string {c : OperationComponent} {s t : Text} (h : c.Precedes (.string s)) :
    c.Precedes (.string t) := by
  cases c with
  | string text => exact h
  | number k => exact h

theorem tidy_cons {c d : OperationComponent} {rest : List OperationComponent}
    (h : Tidy (c :: rest)) (hcd : ∀ b : OperationComponent, b.Precedes c → b.Precedes d) :
    Tidy (d :: rest) := by
  obtain ⟨hhead, htail⟩ := List.isChain_cons.mp h
  exact List.isChain_cons.mpr ⟨fun b hb => hcd b (hhead b hb), htail⟩

variable {recent : List OperationComponent}

theorem pushRetain_tidy {count : Int} (hc : 0 < count) (hp : ∀ c ∈ recent, c.Proper)
    (h : Tidy recent) : Tidy (pushRetain count recent) := by
  cases recent with
  | nil => exact List.isChain_singleton _
  | cons c rest =>
    cases c with
    | string text => exact List.isChain_cons_cons.mpr ⟨trivial, h⟩
    | number last =>
      have hne : last ≠ 0 := (List.forall_mem_cons.mp hp).1
      by_cases hl : 0 < last
      · have hsum : 0 < last + count := by omega
        rw [pushRetain, if_pos hl]
        exact tidy_cons h fun b => precedes_sign (iff_of_true hl hsum) (by omega)
      · rw [pushRetain, if_neg hl]
        exact List.isChain_cons_cons.mpr ⟨Or.inr ⟨by omega, hc⟩, h⟩

theorem pushDelete_tidy {count : Int} (hc : 0 < count) (hp : ∀ c ∈ recent, c.Proper)
    (h : Tidy recent) : Tidy (pushDelete count recent) := by
  cases recent with
  | nil => exact List.isChain_singleton _
  | cons c rest =>
    cases c with
    | string text => exact List.isChain_cons_cons.mpr ⟨trivial, h⟩
    | number last =>
      have hne : last ≠ 0 := (List.forall_mem_cons.mp hp).1
      by_cases hl : last < 0
      · have hsum : last - count < 0 := by omega
        rw [pushDelete, if_pos hl]
        exact tidy_cons h fun b => precedes_sign (by omega) (iff_of_true hl hsum)
      · rw [pushDelete, if_neg hl]
        exact List.isChain_cons_cons.mpr ⟨Or.inl ⟨by omega, by omega⟩, h⟩

theorem pushInsert_tidy (text : Text) (hp : ∀ c ∈ recent, c.Proper) (h : Tidy recent) :
    Tidy (pushInsert text recent) := by
  match recent, hp, h with
  | [], _, _ => exact List.isChain_singleton _
  | .string last :: rest, _, h => exact tidy_cons h fun b => precedes_string
  | .number last :: .string previous :: rest, hp, h =>
    have hne : last ≠ 0 := (List.forall_mem_cons.mp hp).1
    obtain ⟨hlast, hrest⟩ := List.isChain_cons_cons.mp h
    by_cases hl : last < 0
    · rw [pushInsert, if_pos hl]
      exact List.isChain_cons_cons.mpr ⟨trivial, tidy_cons hrest fun b => precedes_string⟩
    · rw [pushInsert, if_neg hl]
      have hpos : 0 < last := by omega
      exact List.isChain_cons_cons.mpr ⟨hpos, h⟩
  | [.number last], hp, h =>
    have hne : last ≠ 0 := (List.forall_mem_cons.mp hp).1
    by_cases hl : last < 0
    · rw [show pushInsert text [.number last] = [.number last, .string text] from if_pos hl]
      exact List.isChain_cons_cons.mpr ⟨trivial, List.isChain_singleton _⟩
    · rw [show pushInsert text [.number last] = [.string text, .number last] from if_neg hl]
      have hpos : 0 < last := by omega
      exact List.isChain_cons_cons.mpr ⟨hpos, h⟩
  | .number last :: .number previous :: rest, hp, h =>
    have hne : last ≠ 0 := (List.forall_mem_cons.mp hp).1
    obtain ⟨hlast, hrest⟩ := List.isChain_cons_cons.mp h
    by_cases hl : last < 0
    · rw [show pushInsert text (.number last :: .number previous :: rest) =
        .number last :: .string text :: .number previous :: rest from if_pos hl]
      -- what comes before a delete and is a number retains
      have hprevious : 0 < previous := by
        rcases hlast with ⟨hm, -⟩ | ⟨-, hn⟩
        · exact hm
        · omega
      exact List.isChain_cons_cons.mpr ⟨trivial, List.isChain_cons_cons.mpr ⟨hprevious, hrest⟩⟩
    · rw [show pushInsert text (.number last :: .number previous :: rest) =
        .string text :: .number last :: .number previous :: rest from if_neg hl]
      have hpos : 0 < last := by omega
      exact List.isChain_cons_cons.mpr ⟨hpos, h⟩

variable {builder : OperationBuilder}

theorem retain_tidy (h : Tidy builder.recent) (count : Int) :
    Tidy (builder.retain count).recent := by
  unfold OperationBuilder.retain
  split
  · exact h
  · exact pushRetain_tidy (by omega) builder.accumulated.proper h

theorem delete_tidy (h : Tidy builder.recent) (count : Int) :
    Tidy (builder.delete count).recent := by
  unfold OperationBuilder.delete
  split
  · exact h
  · exact pushDelete_tidy (by omega) builder.accumulated.proper h

theorem insert_tidy (h : Tidy builder.recent) (text : Text) :
    Tidy (builder.insert text).recent := by
  unfold OperationBuilder.insert
  split
  · exact h
  · exact pushInsert_tidy text builder.accumulated.proper h

theorem build_built (h : Tidy builder.recent) : builder.build.Built :=
  ⟨builder.build_wellFormed, List.isChain_reverse.mpr h⟩

end

theorem tidy_empty : Tidy OperationBuilder.empty.recent := List.IsChain.nil

theorem createOperation_built (components : List OperationComponent) :
    (createOperation components).Built := by
  apply build_built
  refine List.foldlRecOn (motive := fun builder : OperationBuilder => Tidy builder.recent) _ _
    tidy_empty ?_
  intro builder h c _
  cases c with
  | string text => exact insert_tidy h text
  | number n =>
    dsimp only
    split
    · exact retain_tidy h n
    · exact delete_tidy h (-n)

variable {left right : List OperationComponent} {builder : OperationBuilder} {f g : TextOperation}
  {components : List OperationComponent} {cs : List OperationComponent}

theorem transformLoop_built {firstPrime secondPrime : OperationBuilder}
    {first second : TextOperation} (h₁ : Tidy firstPrime.recent) (h₂ : Tidy secondPrime.recent)
    (h : transformLoop left right firstPrime secondPrime = .ok (first, second)) :
    first.Built ∧ second.Built := by
  fun_induction transformLoop left right firstPrime secondPrime with
  | case1 firstPrime secondPrime =>
    obtain ⟨rfl, rfl⟩ := Prod.mk.inj (Except.ok.inj h)
    exact ⟨build_built h₁, build_built h₂⟩
  | case2 a left right firstPrime secondPrime ih =>
    exact ih (insert_tidy h₁ a) (retain_tidy h₂ _) h
  | case3 left b right firstPrime secondPrime _ ih =>
    exact ih (retain_tidy h₁ _) (insert_tidy h₂ b) h
  | case4 a left b right firstPrime secondPrime _ shared ih =>
    exact ih (retain_tidy h₁ _) (retain_tidy h₂ _) h
  | case5 a left b right firstPrime secondPrime _ _ shared ih => exact ih h₁ h₂ h
  | case6 a left b right firstPrime secondPrime _ _ _ shared ih =>
    exact ih (delete_tidy h₁ _) h₂ h
  | case7 a left b right firstPrime secondPrime _ _ _ shared ih =>
    exact ih h₁ (delete_tidy h₂ _) h
  | case8 => cases h

theorem composeLoop_built {operation : TextOperation} (ht : Tidy builder.recent)
    (h : composeLoop left right builder = .ok operation) : operation.Built := by
  fun_induction composeLoop left right builder with
  | case1 builder =>
    obtain rfl := Except.ok.inj h
    exact build_built ht
  | case2 a left right builder _ ih => exact ih (delete_tidy ht _) h
  | case3 a left builder _ b right ih => exact ih (insert_tidy ht b) h
  | case4 => cases h
  | case5 a left builder _ b right _ shared ih => exact ih (retain_tidy ht _) h
  | case6 a left builder _ b right _ shared ih => exact ih (delete_tidy ht _) h
  | case7 left b right builder _ ih => exact ih (insert_tidy ht b) h
  | case8 a left b right builder _ shared ih => exact ih ht h
  | case9 a left b right builder _ shared ih => exact ih (insert_tidy ht _) h
  | case10 => cases h

/-! ## The operation of an effect -/

theorem built_ext (hf : f.Built) (hg : g.Built) (h : SameEffect f.script g.script) : f = g := by
  have hcomponents : f.components = g.components :=
    canonical_unique hf.canonical hg.canonical h
  have hscript : f.script = g.script := congrArg scriptOf hcomponents
  have hbase : f.baseLength = g.baseLength := by
    rw [hf.wellFormed.base, hg.wellFormed.base, hscript]
  have htarget : f.targetLength = g.targetLength := by
    rw [hf.wellFormed.target, hg.wellFormed.target, hscript]
  cases f
  cases g
  congr

theorem compose_built (hf : f.WellFormed) (hg : g.WellFormed) (h : f.targetLength = g.baseLength) :
    ∃ composed, composeOperations f g = .ok composed ∧ composed.Built ∧
      composed.baseLength = f.baseLength ∧ composed.targetLength = g.targetLength ∧
      ∀ s, act composed.script s = (act f.script s).bind (act g.script) := by
  have hlen : targetLen f.script = baseLen g.script := by
    have ht := hf.target
    have hb := hg.base
    omega
  obtain ⟨cs, hcs⟩ := compose_total hlen
  obtain ⟨composed, he, hw, heffect⟩ := composeLoop_effect .empty hf.proper hg.proper hcs
  obtain ⟨hbase, htarget⟩ := compose_base hcs
  rw [OperationBuilder.empty_script, List.nil_append] at heffect
  have hscript := heffect.targetLen_eq
    (List.length_replicate (n := baseLen composed.script) (a := (0 : CodeUnit))).symm
  refine ⟨composed, ?_, composeLoop_built tidy_empty he, ?_, ?_, ?_⟩
  · rw [composeOperations, if_neg (not_not.mpr h), he]
  · rw [hw.base, heffect.base, hbase, hf.base]
  · rw [hw.target, hscript, htarget, hg.target]
  · intro s
    rw [heffect.act, act_compose hcs]

/-- **Composition is sequential application**: it succeeds where the lengths meet, is
canonical, acts as one operation after the other and is associative; where the lengths do
not meet it throws. -/
theorem compose_sequential {f g : TextOperation} (hf : f.WellFormed) (hg : g.WellFormed) :
    (f.targetLength = g.baseLength →
      ∃ composed, composeOperations f g = .ok composed ∧ composed.Built ∧
        composed.baseLength = f.baseLength ∧ composed.targetLength = g.targetLength ∧
        ∀ d : Text, d.length = f.baseLength →
          ∃ middle last, applyOperation d f = .ok middle ∧ applyOperation middle g = .ok last ∧
            applyOperation d composed = .ok last) ∧
    (∀ h : TextOperation, h.WellFormed → f.targetLength = g.baseLength →
      g.targetLength = h.baseLength →
      ∃ fg gh whole, composeOperations f g = .ok fg ∧ composeOperations g h = .ok gh ∧
        composeOperations fg h = .ok whole ∧ composeOperations f gh = .ok whole) ∧
    (f.targetLength ≠ g.baseLength → ∃ e, composeOperations f g = .error e) := by
  refine ⟨fun hmeet => ?_, fun h hh hfg hgh => ?_, fun hne => ?_⟩
  · obtain ⟨composed, he, hbuilt, hbase, htarget, hact⟩ := compose_built hf hg hmeet
    refine ⟨composed, he, hbuilt, hbase, htarget, fun d hd => ?_⟩
    obtain ⟨middle, hmiddle⟩ := Applies.of_base_length hf hd.symm
    obtain ⟨last, hlast⟩ := @Applies.of_base_length g middle hg
      (by rw [← hmeet, hmiddle.target_length])
    refine ⟨middle, last, hmiddle.apply, hlast.apply, Applies.apply ⟨hbuilt.wellFormed, ?_⟩⟩
    rw [hact, hmiddle.act, Option.bind_some, hlast.act]
  · obtain ⟨fg, hefg, hbfg, hbase, htarget, hact⟩ := compose_built hf hg hfg
    obtain ⟨gh, hegh, hbgh, hbase', htarget', hact'⟩ := compose_built hg hh hgh
    obtain ⟨left, hleft, hbleft, hleftbase, -, hleftact⟩ :=
      compose_built hbfg.wellFormed hh (htarget.trans hgh)
    obtain ⟨right, hright, hbright, hrightbase, -, hrightact⟩ :=
      compose_built hf hbgh.wellFormed (hfg.trans hbase'.symm)
    have hsame : left = right := by
      refine built_ext hbleft hbright ⟨?_, fun s => ?_⟩
      · have h₁ := hbleft.wellFormed.base
        have h₂ := hbright.wellFormed.base
        omega
      · have hgh' : act gh.script = fun t => (act g.script t).bind (act h.script) :=
          funext hact'
        rw [hleftact, hact, hrightact, hgh', Option.bind_assoc]
    exact ⟨fg, gh, left, hefg, hegh, hleft, hsame ▸ hright⟩
  · rw [composeOperations, if_pos hne]
    exact ⟨_, rfl⟩

def typed : TextOperation := createOperation [.string [97, 98], .number 1]

/-- The second of three characters, and the third, deleted. -/
def trimmed : TextOperation := createOperation [.number 1, .number (-2)]

/-- Text that the first operation inserts and the second deletes is in neither. -/
theorem compose_sequential_typed :
    ∃ composed, composeOperations typed trimmed = .ok composed ∧ composed.Built ∧
      composed.baseLength = typed.baseLength ∧ composed.targetLength = trimmed.targetLength ∧
      ∀ d : Text, d.length = typed.baseLength →
        ∃ middle last, applyOperation d typed = .ok middle ∧
          applyOperation middle trimmed = .ok last ∧ applyOperation d composed = .ok last :=
  (compose_sequential (createOperation_built _).wellFormed
    (createOperation_built _).wellFormed).1 (by decide)

/-! ## The diamond -/

/-- Where the two operations lead over one text, the first one applied first. -/
def MergesTo (first second : TextOperation) (text merged : Text) : Prop :=
  ∃ firstPrime secondPrime left,
    transformOperations first second = .ok (firstPrime, secondPrime) ∧
      applyOperation text first = .ok left ∧ applyOperation left secondPrime = .ok merged

theorem transform_built (hf : f.WellFormed) (hg : g.WellFormed) (h : f.baseLength = g.baseLength) :
    ∃ f' g' p, transformOperations f g = .ok (f', g') ∧ f'.Built ∧ g'.Built ∧
      transform f.script g.script = some p ∧ SameEffect f'.script p.1 ∧
      SameEffect g'.script p.2 := by
  have hlen : baseLen f.script = baseLen g.script := by
    have hb := hf.base
    have hb' := hg.base
    omega
  obtain ⟨p, hp⟩ := transform_total hlen
  obtain ⟨f', g', he, hf', hg'⟩ := transformLoop_effect .empty .empty hf.proper hg.proper hp
  obtain ⟨hbuilt, hbuilt'⟩ := transformLoop_built tidy_empty tidy_empty he
  refine ⟨f', g', p, ?_, hbuilt, hbuilt', hp, hf'.effect, hg'.effect⟩
  rw [transformOperations, if_neg (not_not.mpr h), he]

theorem built_base {f : TextOperation} {as : Script CodeUnit} (hf : f.Built)
    (h : SameEffect f.script as) : f.baseLength = baseLen as := by
  rw [hf.wellFormed.base, h.base]

theorem mergesTo_of_scripts (hf : f.WellFormed) (hg : g.WellFormed)
    (h : f.baseLength = g.baseLength) {p : Script CodeUnit × Script CodeUnit}
    (hp : transform f.script g.script = some p) {text left merged : Text}
    (hleft : act f.script text = some left) (hmerged : act p.2 left = some merged) :
    MergesTo f g text merged := by
  obtain ⟨f', g', q, he, hf', hg', hq, -, heffect⟩ := transform_built hf hg h
  obtain rfl := Option.some.inj (hp.symm.trans hq)
  refine ⟨f', g', left, he, Applies.apply ⟨hf, hleft⟩, Applies.apply ⟨hg'.wellFormed, ?_⟩⟩
  rw [heffect.act, hmerged]

theorem push_recent {c : OperationComponent} (hp : c.Proper)
    (hhead : ∀ d ∈ builder.recent.head?, d.Precedes c) : (match c with
      | .string text => builder.insert text
      | .number n => if n > 0 then builder.retain n else builder.delete (-n)).recent =
      c :: builder.recent := by
  cases c with
  | string text =>
    have hlen : text.length ≠ 0 := fun hlen => hp (List.eq_nil_of_length_eq_zero hlen)
    dsimp only
    rw [OperationBuilder.insert, dif_neg hlen]
    show OperationBuilder.pushInsert text builder.recent = _
    cases hrecent : builder.recent with
    | nil => rfl
    | cons d rest =>
      rw [hrecent] at hhead
      have hd := hhead d rfl
      cases d with
      | string text' => exact hd.elim
      | number m =>
        have hm : ¬m < 0 := by
          have : 0 < m := hd
          omega
        match rest with
        | [] => exact if_neg hm
        | .string _ :: _ => exact if_neg hm
        | .number _ :: _ => exact if_neg hm
  | number n =>
    have hn : n ≠ 0 := hp
    dsimp only
    by_cases hpos : n > 0
    · rw [if_pos hpos, OperationBuilder.retain, dif_neg (by omega)]
      show OperationBuilder.pushRetain n builder.recent = _
      cases hrecent : builder.recent with
      | nil => rfl
      | cons d rest =>
        rw [hrecent] at hhead
        cases d with
        | string text => rfl
        | number m =>
          have hm : ¬0 < m := by
            rcases hhead _ rfl with hd | hd <;> omega
          exact if_neg hm
    · rw [if_neg hpos, OperationBuilder.delete, dif_neg (by omega)]
      show OperationBuilder.pushDelete (-n) builder.recent = _
      cases hrecent : builder.recent with
      | nil =>
        show [OperationComponent.number (- -n)] = _
        rw [Int.neg_neg]
      | cons d rest =>
        rw [hrecent] at hhead
        cases d with
        | string text =>
          show OperationComponent.number (- -n) :: _ = _
          rw [Int.neg_neg]
        | number m =>
          have hm : ¬m < 0 := by
            rcases hhead _ rfl with hd | hd <;> omega
          have hpush : OperationBuilder.pushDelete (-n) (.number m :: rest) =
            .number (- -n) :: .number m :: rest := if_neg hm
          rw [Int.neg_neg] at hpush
          exact hpush

theorem createOperation_canonical (h : Canonical components) :
    (createOperation components).components = components := by
  have hfold {builder : OperationBuilder} (h : Canonical (builder.recent.reverse ++ components)) :
      (components.foldl (fun builder component =>
        match component with
        | .string text => builder.insert text
        | .number n => if n > 0 then builder.retain n else builder.delete (-n))
        builder).recent.reverse = builder.recent.reverse ++ components := by
    clear * - h
    induction components generalizing builder with
    | nil => rw [List.append_nil]; rfl
    | cons c cs ih =>
      have hpush := @push_recent builder c (h.proper c (by simp)) (by
        intro d hd
        cases hrecent : builder.recent with
        | nil =>
          rw [hrecent] at hd
          cases hd
        | cons e rest =>
          rw [hrecent] at hd
          obtain rfl := Option.some.inj hd
          have hchain := h.chain
          rw [hrecent, List.reverse_cons, List.append_assoc] at hchain
          exact (List.isChain_append_cons_cons.mp hchain).2.1)
      rw [List.foldl_cons, ih]
      · rw [hpush, List.reverse_cons, List.append_assoc]
        rfl
      · rw [hpush, List.reverse_cons, List.append_assoc]
        exact h
  exact @hfold .empty h

theorem createOperation_script (h : Canonical components) :
    (createOperation components).script = scriptOf components :=
  congrArg scriptOf (createOperation_canonical h)

theorem getLast?_before_string {text : Text} {rest : List OperationComponent}
    (h : Canonical (cs ++ .string text :: rest)) (u : CodeUnit) :
    (scriptOf cs).getLast? ≠ some (.put u) := by
  rcases List.eq_nil_or_concat cs with rfl | ⟨front, c, rfl⟩
  · nofun
  · intro hlast
    have hc : c.Precedes (.string text) := by
      have hchain := h.chain
      rw [List.concat_eq_append, List.append_assoc] at hchain
      exact (List.isChain_append_cons_cons.mp hchain).2.1
    have hproper : c.Proper := h.proper c (by simp)
    rw [List.concat_eq_append, scriptOf_append, scriptOf_cons, scriptOf_nil, List.append_nil,
      List.getLast?_append_of_ne_nil _ (script_ne_nil hproper)] at hlast
    have hkind := kind_script c _ (List.mem_of_getLast? hlast)
    cases c with
    | string text' => exact hc
    | number n =>
      rw [kind_retain hc] at hkind
      cases hkind

theorem ne_put_after_string {text : Text} (h : Canonical (.string text :: cs)) (u : CodeUnit)
    (rest : Script CodeUnit) : scriptOf cs ≠ .put u :: rest := by
  intro hscript
  exact kind_rest h (.put u) (by rw [hscript]; rfl) rfl

/-- **Of two insertions at one place the first operation's text comes first.** -/
theorem tie_first (hf : f.Built) (hg : g.Built) {l₁ l₂ r₁ r₂ : List OperationComponent}
    {x y u v : Text} (hl : f.components = l₁ ++ .string x :: l₂)
    (hr : g.components = r₁ ++ .string y :: r₂) (hu : (createOperation l₁).baseLength = u.length)
    (hu' : (createOperation r₁).baseLength = u.length) (hv : f.baseLength = (u ++ v).length)
    (hv' : g.baseLength = (u ++ v).length) :
    ∃ m₁ m₂, MergesTo (createOperation l₁) (createOperation r₁) u m₁ ∧
      MergesTo (createOperation l₂) (createOperation r₂) v m₂ ∧
      ∀ p, transform f.script g.script = some p →
        (act f.script (u ++ v)).bind (act p.2) = some (m₁ ++ x ++ y ++ m₂) := by
  have hcf : Canonical (l₁ ++ .string x :: l₂) := hl ▸ hf.canonical
  have hcg : Canonical (r₁ ++ .string y :: r₂) := hr ▸ hg.canonical
  have part (cs : List OperationComponent) : (createOperation cs).WellFormed :=
    (createOperation_built cs).wellFormed
  have hl₁ := createOperation_script hcf.append.1
  have hl₂ := createOperation_script hcf.append.2.tail
  have hr₁ := createOperation_script hcg.append.1
  have hr₂ := createOperation_script hcg.append.2.tail
  have hfs : f.script = scriptOf l₁ ++ (puts x ++ scriptOf l₂) := by
    rw [TextOperation.script, hl, scriptOf_append, scriptOf_cons, script_string]
  have hgs : g.script = scriptOf r₁ ++ (puts y ++ scriptOf r₂) := by
    rw [TextOperation.script, hr, scriptOf_append, scriptOf_cons, script_string]
  -- both read `u` before the insertion and `v` after it
  have bl₁ : baseLen (scriptOf l₁) = u.length := by
    have := (part l₁).base
    rw [hl₁] at this
    omega
  have br₁ : baseLen (scriptOf r₁) = u.length := by
    have := (part r₁).base
    rw [hr₁] at this
    omega
  have bl₂ : baseLen (scriptOf l₂) = v.length := by
    have hb := hf.wellFormed.base
    rw [hfs, baseLen_append, baseLen_append, baseLen_puts, hv, List.length_append] at hb
    omega
  have br₂ : baseLen (scriptOf r₂) = v.length := by
    have hb := hg.wellFormed.base
    rw [hgs, baseLen_append, baseLen_append, baseLen_puts, hv', List.length_append] at hb
    omega
  obtain ⟨p₁, hp₁⟩ := transform_total (bl₁.trans br₁.symm)
  obtain ⟨p₂, hp₂⟩ := transform_total (bl₂.trans br₂.symm)
  obtain ⟨a₁, ha₁⟩ := act_total bl₁
  obtain ⟨a₂, ha₂⟩ := act_total bl₂
  obtain ⟨m₁, hm₁⟩ := @act_total _ p₁.2 a₁
    (by rw [(transform_lengths hp₁).2.1, act_length ha₁])
  obtain ⟨m₂, hm₂⟩ := @act_total _ p₂.2 a₂
    (by rw [(transform_lengths hp₂).2.1, act_length ha₂])
  have base {cs : List OperationComponent} {n : Nat}
      (hs : (createOperation cs).script = scriptOf cs) (hb : baseLen (scriptOf cs) = n) :
      (createOperation cs).baseLength = n := by
    rw [(part cs).base, hs, hb]
  refine ⟨m₁, m₂, ?_, ?_, ?_⟩
  · exact mergesTo_of_scripts (part l₁) (part r₁) (hu.trans hu'.symm) (hl₁ ▸ hr₁ ▸ hp₁)
      (hl₁ ▸ ha₁) hm₁
  · exact mergesTo_of_scripts (part l₂) (part r₂) ((base hl₂ bl₂).trans (base hr₂ br₂).symm)
      (hl₂ ▸ hr₂ ▸ hp₂) (hl₂ ▸ ha₂) hm₂
  · intro p hp
    rw [hfs, hgs, transform_append _ _ (bl₁.trans br₁.symm) (getLast?_before_string hcg), hp₁,
      Option.bind_some, transform_puts_left,
      transform_puts_right (ne_put_after_string hcf.append.2), hp₂] at hp
    obtain rfl := Option.some.inj hp
    have hfirst : act f.script (u ++ v) = some (a₁ ++ (x ++ a₂)) := by
      rw [hfs]
      exact act_append_some ha₁ (act_append_some (act_puts x) ha₂)
    rw [hfirst, Option.bind_some]
    have hkeeps : act (keeps x.length) x = some x := act_keeps x
    have hlast := act_append_some hm₁ (act_append_some hkeeps (act_append_some (act_puts y) hm₂))
    simpa [prefixed] using hlast

/-- **The transformation diamond.** -/
theorem transform_diamond_components {first second : TextOperation} (h₁ : first.Built)
    (h₂ : second.Built) (h : first.baseLength = second.baseLength) :
    ∃ firstPrime secondPrime merged,
      transformOperations first second = .ok (firstPrime, secondPrime) ∧
      firstPrime.Built ∧ secondPrime.Built ∧
      firstPrime.baseLength = second.targetLength ∧
      secondPrime.baseLength = first.targetLength ∧
      composeOperations first secondPrime = .ok merged ∧
      composeOperations second firstPrime = .ok merged ∧
      ∀ (l₁ l₂ r₁ r₂ : List OperationComponent) (x y u v : Text),
        first.components = l₁ ++ .string x :: l₂ → second.components = r₁ ++ .string y :: r₂ →
        (createOperation l₁).baseLength = u.length →
        (createOperation r₁).baseLength = u.length → first.baseLength = (u ++ v).length →
        ∃ m₁ m₂, MergesTo (createOperation l₁) (createOperation r₁) u m₁ ∧
          MergesTo (createOperation l₂) (createOperation r₂) v m₂ ∧
          applyOperation (u ++ v) merged = .ok (m₁ ++ x ++ y ++ m₂) := by
  obtain ⟨firstPrime, secondPrime, p, he, hb₁, hb₂, hp, hs₁, hs₂⟩ :=
    transform_built h₁.wellFormed h₂.wellFormed h
  obtain ⟨hl₁, hl₂, -⟩ := transform_lengths hp
  have base₁ : firstPrime.baseLength = second.targetLength := by
    rw [built_base hb₁ hs₁, hl₁, h₂.wellFormed.target]
  have base₂ : secondPrime.baseLength = first.targetLength := by
    rw [built_base hb₂ hs₂, hl₂, h₁.wellFormed.target]
  obtain ⟨merged, hc, hbuilt, hbase, -, hact⟩ :=
    compose_built h₁.wellFormed hb₂.wellFormed base₂.symm
  obtain ⟨merged', hc', hbuilt', hbase', -, hact'⟩ :=
    compose_built h₂.wellFormed hb₁.wellFormed base₁.symm
  have hact₁ : act firstPrime.script = act p.1 := funext hs₁.act
  have hact₂ : act secondPrime.script = act p.2 := funext hs₂.act
  have hsame : merged = merged' := by
    refine built_ext hbuilt hbuilt' ⟨?_, fun s => ?_⟩
    · have hw := hbuilt.wellFormed.base
      have hw' := hbuilt'.wellFormed.base
      omega
    · rw [hact, hact', hact₁, hact₂]
      exact transform_diamond hp s
  refine ⟨firstPrime, secondPrime, merged, he, hb₁, hb₂, base₁, base₂, hc, hsame ▸ hc', ?_⟩
  intro l₁ l₂ r₁ r₂ x y u v hl hr hu hu' hv
  obtain ⟨m₁, m₂, hm₁, hm₂, hmerged⟩ := tie_first h₁ h₂ hl hr hu hu' hv (h ▸ hv)
  refine ⟨m₁, m₂, hm₁, hm₂, Applies.apply ⟨hbuilt.wellFormed, ?_⟩⟩
  rw [hact, hact₂, hmerged p hp]

def typedInside (unit : CodeUnit) : TextOperation :=
  createOperation [.number 2, .string [unit], .number 2]

/-- Two characters at one place: the first operation's comes first. -/
theorem transform_diamond_components_tie :
    ∃ firstPrime secondPrime merged m₁ m₂,
      transformOperations (typedInside 65) (typedInside 66) = .ok (firstPrime, secondPrime) ∧
      composeOperations (typedInside 65) secondPrime = .ok merged ∧
      composeOperations (typedInside 66) firstPrime = .ok merged ∧
      applyOperation [97, 98, 99, 100] merged = .ok (m₁ ++ [65] ++ [66] ++ m₂) := by
  obtain ⟨firstPrime, secondPrime, merged, he, -, -, -, -, hc, hc', htie⟩ :=
    transform_diamond_components (createOperation_built [.number 2, .string [65], .number 2])
      (createOperation_built [.number 2, .string [66], .number 2]) (by decide)
  obtain ⟨m₁, m₂, -, -, hm⟩ := htie [.number 2] [.number 2] [.number 2] [.number 2] [65] [66]
    [97, 98] [99, 100] (by decide) (by decide) (by decide) (by decide) (by decide)
  exact ⟨firstPrime, secondPrime, merged, m₁, m₂, he, hc, hc', hm⟩

end AgenticGit.Collab
