import Mathlib.Data.List.Basic
import Mathlib.Tactic.Common

/- Decoders that are fed a stream a chunk at a time. A decoder holds what it has not read
   yet; whenever more comes it reads as many items as it can. It may stop for good: an item
   that may not come, or the end.

   What is asked of a decoder is that what it makes of the front of a stream does not depend
   on what follows (`Decoder.read_append`, `Decoder.stop_append`), and that reading makes the
   rest shorter.

   What is proved:
     1. `drain_append` — reading a stream is reading its front, and then what is left of it
        with the rest behind.
     2. `feed_eq_drain` — however a stream is cut into chunks, feeding them yields what
        reading all of it at once yields.
     3. `drain_items` — what is read of a run of items is what they yield, one after the
        other.
     4. `exists_run`, `prefix_of_run` — the longest run of items a stream begins with. -/
namespace AgenticGit.Incremental

universe u v w

/-- What a decoder makes of the input it holds. -/
inductive Reading (σ : Type u) (β : Type v) (ε : Type w) where
  /-- Not enough yet. -/
  | more : Reading σ β ε
  /-- One item, which yields events and leaves a state and the rest of the input. -/
  | read (events : List ε) (state : σ) (rest : List β) : Reading σ β ε
  /-- The end, after these events. -/
  | stop (events : List ε) : Reading σ β ε

structure Decoder (σ : Type u) (β : Type v) (ε : Type w) where
  next : σ → List β → Reading σ β ε
  shorter : ∀ {s input events s' rest}, next s input = .read events s' rest →
    rest.length < input.length
  read_append : ∀ {s input events s' rest} (behind : List β),
    next s input = .read events s' rest →
      next s (input ++ behind) = .read events s' (rest ++ behind)
  stop_append : ∀ {s input events} (behind : List β),
    next s input = .stop events → next s (input ++ behind) = .stop events

variable {σ : Type u} {β : Type v} {ε : Type w} (d : Decoder σ β ε)

/-- What a stream yields, and the state and the input left; `none` once the decoder has
stopped. -/
def drain (s : σ) (input : List β) : List ε × Option (σ × List β) :=
  match h : d.next s input with
  | .more => ([], some (s, input))
  | .stop events => (events, none)
  | .read events s' rest =>
    have : rest.length < input.length := d.shorter h
    let result := drain s' rest
    (events ++ result.1, result.2)
termination_by input.length

theorem drain_more {s : σ} {input : List β} (h : d.next s input = .more) :
    drain d s input = ([], some (s, input)) := by
  rw [drain]
  split
  · rfl
  · rename_i he
    rw [h] at he
    cases he
  · rename_i he
    rw [h] at he
    cases he

theorem drain_stop {s : σ} {input : List β} {events : List ε}
    (h : d.next s input = .stop events) : drain d s input = (events, none) := by
  rw [drain]
  split
  · rename_i he
    rw [h] at he
    cases he
  · rename_i he
    rw [h] at he
    cases he
    rfl
  · rename_i he
    rw [h] at he
    cases he

theorem drain_read {s s' : σ} {input rest : List β} {events : List ε}
    (h : d.next s input = .read events s' rest) :
    drain d s input = (events ++ (drain d s' rest).1, (drain d s' rest).2) := by
  rw [drain]
  split
  · rename_i he
    rw [h] at he
    cases he
  · rename_i he
    rw [h] at he
    cases he
  · rename_i he
    rw [h] at he
    cases he
    rfl

/-- What comes after a stream that has been read as far as it goes. -/
def resume (result : List ε × Option (σ × List β)) (behind : List β) :
    List ε × Option (σ × List β) :=
  match result.2 with
  | none => (result.1, none)
  | some (s, rest) =>
    (result.1 ++ (drain d s (rest ++ behind)).1, (drain d s (rest ++ behind)).2)

/-- **Reading goes on where it left off.** -/
theorem drain_append (s : σ) (input behind : List β) :
    drain d s (input ++ behind) = resume d (drain d s input) behind := by
  induction hn : input.length using Nat.strongRecOn generalizing s input with
  | ind n ih =>
    cases h : d.next s input with
    | more =>
      rw [drain_more d h]
      rfl
    | stop events => rw [drain_stop d h, drain_stop d (d.stop_append behind h), resume]
    | read events s' rest =>
      have hlt := d.shorter h
      rw [drain_read d h, drain_read d (d.read_append behind h),
        ih rest.length (hn ▸ hlt) s' rest rfl]
      unfold resume
      cases (drain d s' rest).2 with
      | none => rfl
      | some held => simp only [List.append_assoc]

theorem drain_held {s s' : σ} {input rest : List β}
    (h : (drain d s input).2 = some (s', rest)) : d.next s' rest = .more := by
  induction hn : input.length using Nat.strongRecOn generalizing s input with
  | ind n ih =>
    cases hnext : d.next s input with
    | more =>
      rw [drain_more d hnext] at h
      obtain ⟨rfl, rfl⟩ := Prod.mk.inj (Option.some.inj h)
      exact hnext
    | stop events =>
      rw [drain_stop d hnext] at h
      cases h
    | read events s'' rest' =>
      rw [drain_read d hnext] at h
      exact ih rest'.length (hn ▸ d.shorter hnext) h rfl

/-! ## Chunks -/

/-- What the chunks yield, fed one after the other until the decoder stops. -/
def feed (s : σ) (held : List β) : List (List β) → List ε × Option (σ × List β)
  | [] => ([], some (s, held))
  | chunk :: chunks =>
    match (drain d s (held ++ chunk)).2 with
    | none => ((drain d s (held ++ chunk)).1, none)
    | some (s', rest) =>
      ((drain d s (held ++ chunk)).1 ++ (feed s' rest chunks).1, (feed s' rest chunks).2)

/-- **However the stream is cut.** -/
theorem feed_eq_drain {s : σ} {held : List β} (h : d.next s held = .more)
    (chunks : List (List β)) : feed d s held chunks = drain d s (held ++ chunks.flatten) := by
  induction chunks generalizing s held with
  | nil => rw [feed, List.flatten_nil, List.append_nil, drain_more d h]
  | cons chunk chunks ih =>
    rw [feed, List.flatten_cons, ← List.append_assoc, drain_append d s (held ++ chunk)]
    unfold resume
    cases hresult : (drain d s (held ++ chunk)).2 with
    | none => rfl
    | some state =>
      obtain ⟨s', rest⟩ := state
      dsimp only
      rw [ih (drain_held d hresult)]

/-! ## Items -/

section Items
variable {ι : Type u} {τ : Type v} (bytes : ι → List β) (after : τ → ι → τ)
  (yields : τ → ι → List ε)

def afterAll (t : τ) (items : List ι) : τ := items.foldl after t

def yieldsAll : τ → List ι → List ε
  | _, [] => []
  | t, item :: items => yields t item ++ yieldsAll (after t item) items

/-- Every item of the run may come where it comes. -/
def LegalAll (legal : τ → ι → Prop) : τ → List ι → Prop
  | _, [] => True
  | t, item :: items => legal t item ∧ LegalAll legal (after t item) items

variable {bytes after yields} {legal : τ → ι → Prop}

/-- **Items are read one after the other**, by a decoder that keeps what is read so far in a
form of its own. -/
theorem drain_items {keeps : σ → τ → Prop}
    (hitem : ∀ {s t item} rest, keeps s t → legal t item → ∃ s', keeps s' (after t item) ∧
      d.next s (bytes item ++ rest) = .read (yields t item) s' rest)
    {s : σ} {t : τ} {items : List ι} (hkeeps : keeps s t) (h : LegalAll after legal t items)
    (rest : List β) :
    ∃ s', keeps s' (afterAll after t items) ∧ drain d s (items.flatMap bytes ++ rest) =
      (yieldsAll after yields t items ++ (drain d s' rest).1, (drain d s' rest).2) := by
  induction items generalizing s t with
  | nil => exact ⟨s, hkeeps, rfl⟩
  | cons item items ih =>
    obtain ⟨hlegal, htail⟩ := h
    obtain ⟨s₁, hkeeps₁, hnext⟩ := hitem (items.flatMap bytes ++ rest) hkeeps hlegal
    obtain ⟨s', hkeeps', hdrain⟩ := ih hkeeps₁ htail
    refine ⟨s', hkeeps', ?_⟩
    rw [List.flatMap_cons, List.append_assoc, drain_read d hnext, hdrain, yieldsAll,
      List.append_assoc]

theorem yieldsAll_append (t : τ) (items items' : List ι) :
    yieldsAll after yields t (items ++ items') =
      yieldsAll after yields t items ++ yieldsAll after yields (afterAll after t items) items' := by
  induction items generalizing t with
  | nil => rfl
  | cons item items ih =>
    rw [List.cons_append, yieldsAll, yieldsAll, ih, List.append_assoc]
    rfl

theorem afterAll_append (t : τ) (items items' : List ι) :
    afterAll after t (items ++ items') = afterAll after (afterAll after t items) items' :=
  List.foldl_append

theorem legalAll_append {t : τ} {items items' : List ι} (h : LegalAll after legal t items)
    (h' : LegalAll after legal (afterAll after t items) items') :
    LegalAll after legal t (items ++ items') := by
  induction items generalizing t with
  | nil => exact h'
  | cons item items ih => exact ⟨h.1, ih h.2 h'⟩

/-- **A stream has a run of items in front of it that goes no further.** -/
theorem exists_run (hpos : ∀ item, bytes item ≠ []) (t : τ) (stream : List β) :
    ∃ items rest, stream = items.flatMap bytes ++ rest ∧ LegalAll after legal t items ∧
      ∀ item behind, rest = bytes item ++ behind → ¬legal (afterAll after t items) item := by
  induction hn : stream.length using Nat.strongRecOn generalizing t stream with
  | ind n ih =>
    by_cases hnext : ∃ item behind, stream = bytes item ++ behind ∧ legal t item
    · obtain ⟨item, behind, rfl, hlegal⟩ := hnext
      have hlt : behind.length < n := by
        have hitem := List.length_pos_of_ne_nil (hpos item)
        rw [List.length_append] at hn
        omega
      obtain ⟨items, rest, rfl, hall, hlast⟩ := ih behind.length hlt (after t item) behind rfl
      exact ⟨item :: items, rest, by rw [List.flatMap_cons, List.append_assoc], ⟨hlegal, hall⟩,
        hlast⟩
    · exact ⟨[], stream, rfl, trivial, fun item behind h hlegal =>
        hnext ⟨item, behind, h, hlegal⟩⟩

/-- **And every other run is the beginning of it**, where items are told apart. -/
theorem prefix_of_run
    (hunique : ∀ {item item' rest rest'}, bytes item ++ rest = bytes item' ++ rest' →
      item = item' ∧ rest = rest')
    {t : τ} {items other : List ι} {rest rest' : List β}
    (hstream : other.flatMap bytes ++ rest' = items.flatMap bytes ++ rest)
    (hlast : ∀ item behind, rest = bytes item ++ behind → ¬legal (afterAll after t items) item)
    (hother : LegalAll after legal t other) : other <+: items := by
  induction items generalizing t other with
  | nil =>
    cases other with
    | nil => exact List.nil_prefix
    | cons item other =>
      rw [List.flatMap_cons, List.append_assoc] at hstream
      exact absurd hother.1 (hlast item _ hstream.symm)
  | cons item items ih =>
    cases other with
    | nil => exact List.nil_prefix
    | cons item' other =>
      rw [List.flatMap_cons, List.flatMap_cons, List.append_assoc, List.append_assoc] at hstream
      obtain ⟨rfl, hrest⟩ := hunique hstream
      exact (List.prefix_cons_inj item').mpr (ih hrest hlast hother.2)

end Items

end AgenticGit.Incremental
