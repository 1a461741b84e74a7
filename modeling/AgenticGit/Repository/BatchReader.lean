import AgenticGit.Lib.Buffers
import AgenticGit.Lib.Runs
import AgenticGit.Lib.Runtime
import AgenticGit.Lib.JsonText

/- One `git cat-file --batch -z` for many reads: `batch-reader.ts`.

   Requests are written to git in the order of the calls, and git's output is
   read as it comes, in chunks, and answered to the requests in their order. A
   request is identified by how many were written before it.

   Correspondence (TypeScript ↔ Lean):
     waiting / buffer / expected / failure ↔ the fields of `Reader`
     a promise that was settled            ↔ an entry of `settled`
     one round of `for (;;)` in absorb     ↔ `progress`
     absorb / deliver / fail / read        ↔ the same names
     what git prints for a request         ↔ `answer`
     Number(rawSize)                       ↔ `NumberText`

   What is proved: git's answer to a request the revision has, and to one it
   has not whose text holds no line break, is read as exactly that answer
   (`absorbLoop_answers`); in a run whose requests are all of these, however
   the calls overlap and the output is cut, every settled request has its own
   contents and none is left once the output has ended (`reads_answered`). A
   missing path with a line break takes the answer of the next request
   (`read_answers_another`). -/
namespace AgenticGit.Repository.Batch
open AgenticGit.Buffers AgenticGit.Runs AgenticGit.Runtime

def newline : Byte := 10
def space : Byte := 32

/-! ## What git prints -/

inductive ObjectType where
  | blob
  | tree
  | commit
  | tag
deriving DecidableEq

def ObjectType.bytes : ObjectType → List Byte
  | .blob => encodeUtf8 "blob"
  | .tree => encodeUtf8 "tree"
  | .commit => encodeUtf8 "commit"
  | .tag => encodeUtf8 "tag"

structure GitObject where
  oid : List Byte
  type : ObjectType
  contents : List Byte
  plain : newline ∉ oid ∧ space ∉ oid

structure RepositoryPath where
  bytes : List Byte
  noNul : (0 : Byte) ∉ bytes

/-- A revision, and what it has at a path. -/
structure Revision where
  name : List Byte
  entry : List Byte → Option GitObject

/-- `${revision}:${repositoryPath}` -/
def Revision.request (revision : Revision) (path : RepositoryPath) : List Byte :=
  revision.name ++ 58 :: path.bytes

def missingText : List Byte := encodeUtf8 " missing"

def decimal (n : Nat) : List Byte := (Nat.toDigits 10 n).map fun c => c.toNat.toUInt8

/-- `<oid> <type> <size>` -/
def GitObject.header (object : GitObject) : List Byte :=
  object.oid ++ space :: (object.type.bytes ++ space :: decimal object.contents.length)

/-- What `cat-file --batch -z` prints for a request. -/
def Revision.answer (revision : Revision) (path : RepositoryPath) : List Byte :=
  match revision.entry path.bytes with
  | none => revision.request path ++ missingText ++ [newline]
  | some object => object.header ++ [newline] ++ object.contents ++ [newline]

/-- The contents of the blob at a path; none where it is absent or no blob. -/
def Revision.blobAt (revision : Revision) (path : RepositoryPath) : Option (List Byte) :=
  match revision.entry path.bytes with
  | some object => if object.type = .blob then some object.contents else none
  | none => none

/-! ## The reader -/

/-- `Number(text)`, where it is a safe integer and not negative. -/
class NumberText where
  number : List Byte → Option Nat
  number_decimal : ∀ n : Nat, (n : Int) ≤ maxSafeInteger → number (decimal n) = some n
  number_unsafe : ∀ n : Nat, maxSafeInteger < (n : Int) → number (decimal n) = none
  number_empty : number [] = some 0

/-- What `cat-file` is part way through handing back. -/
structure Expected where
  size : Nat
  blob : Bool
deriving DecidableEq

inductive Outcome where
  | resolved (value : Option (List Byte))
  | rejected
deriving DecidableEq

structure Reader where
  waiting : List Nat := []
  buffer : List Byte := []
  expected : Option Expected := none
  failure : Bool := false
  settled : List (Nat × Outcome) := []

inductive Progress where
  | wait
  | header (expected : Expected) (rest : List Byte)
  | deliver (value : Option (List Byte)) (rest : List Byte)
  | unparsable (rest : List Byte)

/-- The line at the head of a buffer, and what is behind it. -/
def splitLine : List Byte → Option (List Byte × List Byte)
  | [] => none
  | b :: rest =>
    if b = newline then some ([], rest)
    else (splitLine rest).map fun split => (b :: split.1, split.2)

/-- What the header says comes next, with `rest` behind it. -/
def readHeader [NumberText] (header rest : List Byte) : Progress :=
  if missingText.isSuffixOf header then .deliver none rest
  else
    match NumberText.number (((header.splitOn space)[2]?).getD []) with
    | none => .unparsable rest
    | some size =>
      .header ⟨size, ((header.splitOn space)[1]?).getD [] = ObjectType.blob.bytes⟩ rest

/-- One round of the loop of `absorb`. -/
def progress [NumberText] (buffer : List Byte) : Option Expected → Progress
  | none =>
    match splitLine buffer with
    | none => .wait
    | some (header, rest) => readHeader header rest
  | some expected =>
    if buffer.length < expected.size + 1 then .wait
    else .deliver (if expected.blob then some (buffer.take expected.size) else none)
      (buffer.drop (expected.size + 1))

def deliver (reader : Reader) (value : Option (List Byte)) : Reader :=
  match reader.waiting with
  | [] => reader
  | id :: waiting =>
    { reader with waiting, settled := reader.settled ++ [(id, .resolved value)] }

def fail (reader : Reader) : Reader :=
  { reader with
    failure := true
    waiting := []
    settled := reader.settled ++ reader.waiting.map fun id => (id, .rejected) }

theorem splitLine_iff {buffer line rest : List Byte} :
    splitLine buffer = some (line, rest) ↔ buffer = line ++ newline :: rest ∧ newline ∉ line := by
  induction buffer generalizing line with
  | nil =>
    refine ⟨(fun h => by cases h), fun h => ?_⟩
    exact absurd h.1.symm (List.append_ne_nil_of_right_ne_nil _ (List.cons_ne_nil _ _))
  | cons b buffer ih =>
    rw [splitLine]
    by_cases hb : b = newline
    · rw [if_pos hb]
      constructor
      · intro h
        cases h
        exact ⟨by rw [hb]; rfl, List.not_mem_nil⟩
      · rintro ⟨hbuffer, hline⟩
        cases line with
        | nil =>
          rw [(List.cons.inj hbuffer).2]
        | cons c line => exact absurd ((List.cons.inj hbuffer).1 ▸ hb ▸ List.mem_cons_self) hline
    · rw [if_neg hb, Option.map_eq_some_iff]
      constructor
      · rintro ⟨⟨line', rest'⟩, hsplit, heq⟩
        cases heq
        obtain ⟨rfl, hline⟩ := ih.1 hsplit
        exact ⟨rfl, List.not_mem_cons_of_ne_of_not_mem (fun h => hb h.symm) hline⟩
      · rintro ⟨hbuffer, hline⟩
        cases line with
        | nil => exact absurd (List.cons.inj hbuffer).1 hb
        | cons c line =>
          obtain ⟨rfl, rfl⟩ := List.cons.inj hbuffer
          exact ⟨(line, rest), ih.2 ⟨rfl, fun h => hline (List.mem_cons_of_mem _ h)⟩, rfl⟩

def Progress.left : Progress → Option (List Byte)
  | .wait => none
  | .header _ rest => some rest
  | .deliver _ rest => some rest
  | .unparsable rest => some rest

section
variable [NumberText]

theorem readHeader_left (header rest : List Byte) : (readHeader header rest).left = some rest := by
  rw [readHeader]
  split
  · rfl
  · split <;> rfl

theorem progress_shorter {buffer rest : List Byte} {expected : Option Expected}
    (h : (progress buffer expected).left = some rest) : rest.length < buffer.length := by
  cases expected with
  | none =>
    rw [progress] at h
    split at h
    · cases h
    · rename_i header rest' hsplit
      rw [readHeader_left] at h
      cases h
      rw [(splitLine_iff.1 hsplit).1, List.length_append, List.length_cons]
      omega
  | some expected =>
    rw [progress] at h
    split at h
    · cases h
    · cases h
      rw [List.length_drop]
      omega

/-- `for (;;)` in absorb. -/
def absorbLoop (reader : Reader) : Reader :=
  match h : progress reader.buffer reader.expected with
  | .wait => reader
  | .header expected rest =>
    have : rest.length < reader.buffer.length := progress_shorter (congrArg Progress.left h)
    absorbLoop { reader with buffer := rest, expected := some expected }
  | .deliver value rest =>
    have : rest.length < reader.buffer.length := progress_shorter (congrArg Progress.left h)
    absorbLoop { deliver reader value with buffer := rest, expected := none }
  | .unparsable rest => fail { reader with buffer := rest }
termination_by reader.buffer.length

def absorb (reader : Reader) (chunk : List Byte) : Reader :=
  absorbLoop { reader with buffer := reader.buffer ++ chunk }

end

/-! ## The reader and git -/

/-- The reader, the paths whose requests were written to git, in order, the
    paths whose call was refused, and what git has still to print for the
    requests it has. -/
structure World where
  reader : Reader := {}
  written : List RepositoryPath := []
  refused : List RepositoryPath := []
  unprinted : List Byte := []
  ended : Bool := false

inductive Event where
  /-- A call of `read`. -/
  | read (paths : List RepositoryPath)
  /-- Some of git's output. -/
  | chunk (bytes : List Byte)
  /-- `error`: git could not be run. -/
  | error
  /-- `close`: git is gone and its output has ended. -/
  | close

/-- The call of `read`: its requests wait, and are written, unless the reader failed. -/
def read (revision : Revision) (world : World) (paths : List RepositoryPath) : World :=
  if world.reader.failure then { world with refused := world.refused ++ paths }
  else
    { world with
      reader :=
        { world.reader with
          waiting := world.reader.waiting ++ List.range' world.written.length paths.length }
      written := world.written ++ paths
      unprinted := world.unprinted ++ paths.flatMap revision.answer }

/-- git prints what the requests it has got are answered, in their order, until it is gone. -/
def step [NumberText] (revision : Revision) (world : World) : Event → Option World
  | .read paths => some (read revision world paths)
  | .chunk bytes =>
    if bytes.isPrefixOf world.unprinted ∧ world.ended = false then
      some { world with
        reader := absorb world.reader bytes
        unprinted := world.unprinted.drop bytes.length }
    else none
  | .error => some { world with reader := fail world.reader }
  | .close => some { world with reader := fail world.reader, ended := true }

/-- A request the reader can tell from the others: the revision has the path,
    or the request holds no line break. -/
def Told (revision : Revision) (path : RepositoryPath) : Prop :=
  revision.entry path.bytes = none → newline ∉ revision.request path

def Tells (revision : Revision) (_ : World) : Event → Prop
  | .read paths => ∀ path ∈ paths, Told revision path
  | _ => True

/-- **What a caller may rely on**: a settled request has the contents of its own
    blob, nothing where there is none, or was rejected; it is settled once; and
    a request that is not settled waits, which none does once the output ended. -/
structure Answered (revision : Revision) (world : World) : Prop where
  own : ∀ id value, (id, .resolved value) ∈ world.reader.settled →
    ∃ path, world.written[id]? = some path ∧ value = revision.blobAt path
  once : (world.reader.settled.map Prod.fst).Nodup
  all : ∀ id < world.written.length,
    id ∈ world.reader.waiting ∨ id ∈ world.reader.settled.map Prod.fst
  ended : world.ended = true → world.reader.waiting = []

/-! ## One round -/

section
variable [NumberText] {reader : Reader}

theorem absorbLoop_wait (h : progress reader.buffer reader.expected = .wait) :
    absorbLoop reader = reader := by
  rw [absorbLoop]
  split <;> simp_all

variable {rest : List Byte}

theorem absorbLoop_header {expected : Expected}
    (h : progress reader.buffer reader.expected = .header expected rest) :
    absorbLoop reader = absorbLoop { reader with buffer := rest, expected := some expected } := by
  rw [absorbLoop]
  split
  all_goals rename_i he; rw [h] at he; cases he
  rfl

theorem absorbLoop_deliver {value : Option (List Byte)}
    (h : progress reader.buffer reader.expected = .deliver value rest) : absorbLoop reader =
      absorbLoop { deliver reader value with buffer := rest, expected := none } := by
  rw [absorbLoop]
  split
  all_goals rename_i he; rw [h] at he; cases he
  rfl

theorem absorbLoop_unparsable (h : progress reader.buffer reader.expected = .unparsable rest) :
    absorbLoop reader = fail { reader with buffer := rest } := by
  rw [absorbLoop]
  split
  all_goals rename_i he; rw [h] at he; cases he
  rfl

end

/-! ## What git prints is read back -/

theorem decimal_digit {n : Nat} {b : Byte} (h : b ∈ decimal n) : 48 ≤ b ∧ b ≤ 57 := by
  obtain ⟨c, hc, rfl⟩ := List.mem_map.1 h
  have hbounds := Json.digitChar_bounds hc
  have hsame : c.toNat.toUInt8.toNat = c.toNat :=
    UInt8.toNat_ofNat_of_lt' (show c.toNat < 256 by omega)
  rw [UInt8.le_iff_toNat_le, UInt8.le_iff_toNat_le, hsame]
  exact hbounds

theorem decimal_ne_nil (n : Nat) : decimal n ≠ [] := by
  rw [decimal, Ne, List.map_eq_nil_iff]
  exact Nat.toDigits_ne_nil

theorem space_not_mem_decimal (n : Nat) : space ∉ decimal n :=
  fun h => absurd (decimal_digit h).1 (by decide)

theorem newline_not_mem_decimal (n : Nat) : newline ∉ decimal n :=
  fun h => absurd (decimal_digit h).1 (by decide)

theorem ObjectType.plain (type : ObjectType) : newline ∉ type.bytes ∧ space ∉ type.bytes := by
  cases type <;> decide

theorem ObjectType.blob_iff (type : ObjectType) :
    type.bytes = ObjectType.blob.bytes ↔ type = .blob := by
  cases type <;> decide

theorem GitObject.header_line (object : GitObject) : newline ∉ object.header := by
  rw [GitObject.header]
  simp only [List.mem_append, List.mem_cons, not_or]
  exact ⟨object.plain.1, by decide, object.type.plain.1, by decide, newline_not_mem_decimal _⟩

theorem GitObject.header_fields (object : GitObject) :
    object.header.splitOn space =
      [object.oid, object.type.bytes, decimal object.contents.length] := by
  rw [GitObject.header, List.splitOn_append_cons_self,
    List.splitOn_append_cons_self, List.splitOn_eq_singleton object.plain.2,
    List.splitOn_eq_singleton object.type.plain.2,
    List.splitOn_eq_singleton (space_not_mem_decimal _)]
  rfl

theorem GitObject.header_not_missing (object : GitObject) :
    missingText.isSuffixOf object.header = false := by
  rw [Bool.eq_false_iff, Ne, List.isSuffixOf_iff_suffix]
  rintro ⟨front, hfront⟩
  have hmissing : missingText.getLast? = some 103 := by decide
  obtain ⟨digit, hdigit⟩ : ∃ digit, (decimal object.contents.length).getLast? = some digit :=
    ⟨_, List.getLast?_eq_some_getLast (decimal_ne_nil _)⟩
  have hlast := congrArg List.getLast? hfront
  rw [List.getLast?_append, hmissing, GitObject.header, List.getLast?_append, List.getLast?_cons,
    List.getLast?_append, List.getLast?_cons, hdigit] at hlast
  have hbound := (decimal_digit (List.mem_of_getLast? hdigit)).2
  cases Option.some.inj hlast
  exact absurd hbound (by decide)

theorem readHeader_object [NumberText] (object : GitObject) (rest : List Byte) :
    readHeader object.header rest =
      if (object.contents.length : Int) ≤ maxSafeInteger then
        .header ⟨object.contents.length, object.type = .blob⟩ rest
      else .unparsable rest := by
  rw [readHeader, object.header_not_missing, object.header_fields, if_neg Bool.false_ne_true]
  by_cases hsafe : (object.contents.length : Int) ≤ maxSafeInteger
  · simp only [List.getElem?_cons_succ, List.getElem?_cons_zero, Option.getD_some,
      NumberText.number_decimal _ hsafe, if_pos hsafe, object.type.blob_iff]
  · simp only [List.getElem?_cons_succ, List.getElem?_cons_zero, Option.getD_some,
      NumberText.number_unsafe _ (Int.not_le.1 hsafe), if_neg hsafe]

theorem readHeader_missing [NumberText] (request rest : List Byte) :
    readHeader (request ++ missingText) rest = .deliver none rest :=
  if_pos (List.isSuffixOf_iff_suffix.2 (List.suffix_append _ _))

/-! ## What the reader has read -/

/-- The reader stands before the answers to `paths`, of which `unprinted` is
    still to come: in front of the first of them, or behind its header. -/
def Stands (revision : Revision) (reader : Reader) (paths : List RepositoryPath)
    (unprinted : List Byte) : Prop :=
  match reader.expected with
  | none => reader.buffer ++ unprinted = paths.flatMap revision.answer
  | some expected => ∃ path rest object, paths = path :: rest ∧
      revision.entry path.bytes = some object ∧
      expected = ⟨object.contents.length, object.type = .blob⟩ ∧
      reader.buffer ++ unprinted =
        object.contents ++ newline :: rest.flatMap revision.answer

/-- The requests from `id` on are answered, in order. -/
def answers (revision : Revision) : Nat → List RepositoryPath → List (Nat × Outcome)
  | _, [] => []
  | id, path :: paths => (id, .resolved (revision.blobAt path)) :: answers revision (id + 1) paths

/-- `after` is `before` with the answers to the requests `paths` from `id` on,
    and waits for the later ones; or it failed and rejected all that are left. -/
structure Absorbed (revision : Revision) (before after : Reader) (id : Nat)
    (paths : List RepositoryPath) (unprinted : List Byte) : Prop where
  steps : ∃ done rest, paths = done ++ rest ∧
    ((after.failure = before.failure ∧ Stands revision after rest unprinted ∧
        after.waiting = List.range' (id + done.length) rest.length ∧
        after.settled = before.settled ++ answers revision id done) ∨
      (after.failure = true ∧ after.waiting = [] ∧
        after.settled = before.settled ++ answers revision id done ++
          (List.range' (id + done.length) rest.length).map fun id => (id, .rejected)))

theorem splitLine_of_append {buffer unprinted line rest : List Byte} (hline : newline ∉ line)
    (h : buffer ++ unprinted = line ++ newline :: rest) :
    splitLine buffer = none ∨
      ∃ left, splitLine buffer = some (line, left) ∧ left ++ unprinted = rest := by
  cases hsplit : splitLine buffer with
  | none => exact .inl rfl
  | some split =>
    obtain ⟨line', left⟩ := split
    obtain ⟨rfl, hline'⟩ := splitLine_iff.1 hsplit
    rw [List.append_assoc, List.cons_append] at h
    have hsame : splitLine (line' ++ newline :: (left ++ unprinted)) = some (line, rest) :=
      splitLine_iff.2 ⟨h, hline⟩
    rw [splitLine_iff.2 ⟨rfl, hline'⟩] at hsame
    cases hsame
    exact .inr ⟨left, rfl, rfl⟩

theorem Absorbed.refl {revision : Revision} {reader : Reader} {id : Nat}
    {paths : List RepositoryPath} {unprinted : List Byte}
    (hwaiting : reader.waiting = List.range' id paths.length)
    (hstands : Stands revision reader paths unprinted) :
    Absorbed revision reader reader id paths unprinted :=
  ⟨[], paths, rfl, .inl ⟨rfl, hstands, hwaiting, (List.append_nil _).symm⟩⟩

theorem Absorbed.cons {revision : Revision} {before middle after : Reader} {id : Nat}
    {path : RepositoryPath} {paths : List RepositoryPath} {unprinted : List Byte}
    (hfailure : middle.failure = before.failure)
    (hsettled : middle.settled = before.settled ++ [(id, .resolved (revision.blobAt path))])
    (h : Absorbed revision middle after (id + 1) paths unprinted) :
    Absorbed revision before after id (path :: paths) unprinted := by
  obtain ⟨done, rest, rfl, h⟩ := h
  have hid : id + 1 + done.length = id + (path :: done).length := by
    rw [List.length_cons]
    omega
  have hanswers : middle.settled ++ answers revision (id + 1) done =
      before.settled ++ answers revision id (path :: done) := by
    rw [hsettled, List.append_assoc]
    rfl
  refine ⟨path :: done, rest, rfl, ?_⟩
  rw [hid, hanswers, hfailure] at h
  exact h

theorem deliver_head {reader : Reader} {id n : Nat} (value : Option (List Byte))
    (h : reader.waiting = List.range' id (n + 1)) :
    deliver reader value =
      { reader with
        waiting := List.range' (id + 1) n
        settled := reader.settled ++ [(id, .resolved value)] } := by
  rw [deliver, h, List.range'_succ]

theorem missingText_line : newline ∉ missingText := by decide

/-- **The answers that have come are given to their requests**, in order, until
    one is not complete or its size cannot be counted. -/
theorem absorbLoop_answers [NumberText] {revision : Revision} {reader : Reader} {id : Nat}
    {paths : List RepositoryPath} {unprinted : List Byte}
    (htold : ∀ path ∈ paths, Told revision path)
    (hwaiting : reader.waiting = List.range' id paths.length)
    (hstands : Stands revision reader paths unprinted) :
    Absorbed revision reader (absorbLoop reader) id paths unprinted := by
  induction hn : reader.buffer.length using Nat.strong_induction_on
    generalizing reader id paths with
  | _ n ih =>
    have hrefl := Absorbed.refl hwaiting hstands
    have hshort {rest : List Byte}
        (h : (progress reader.buffer reader.expected).left = some rest) : rest.length < n :=
      hn ▸ progress_shorter h
    -- reading one answer, and the others behind it
    have hgive (value : Option (List Byte)) {path : RepositoryPath} {paths' : List RepositoryPath}
        {left : List Byte} (hpaths : paths = path :: paths') (hvalue : value = revision.blobAt path)
        (hleft : left ++ unprinted = paths'.flatMap revision.answer)
        (h : progress reader.buffer reader.expected = .deliver value left) :
        Absorbed revision reader (absorbLoop reader) id paths unprinted := by
      subst hpaths
      rw [absorbLoop_deliver h, deliver_head value hwaiting]
      refine Absorbed.cons ?_ ?_ (ih left.length (hshort (by rw [h]; rfl))
        (fun path hp => htold path (List.mem_cons_of_mem _ hp)) ?_ ?_ ?_)
      · rfl
      · rw [hvalue]
      · rfl
      · exact hleft
      · rfl
    cases hexpected : reader.expected with
    | some expected =>
      rw [Stands, hexpected] at hstands
      obtain ⟨path, paths', object, hpaths, hentry, rfl, hbuffer⟩ := hstands
      by_cases hlen : reader.buffer.length < object.contents.length + 1
      · rw [absorbLoop_wait (by rw [hexpected]; exact if_pos hlen)]
        exact hrefl
      · have htake : reader.buffer.take object.contents.length = object.contents := by
          have := congrArg (List.take object.contents.length) hbuffer
          rwa [List.take_append_of_le_length (by omega), List.take_left] at this
        have hdrop : reader.buffer.drop (object.contents.length + 1) ++ unprinted =
            paths'.flatMap revision.answer := by
          have := congrArg (List.drop (object.contents.length + 1)) hbuffer
          rwa [List.drop_append_of_le_length (by omega), List.append_cons,
            List.drop_left' (by rw [List.length_append, List.length_singleton])] at this
        refine hgive _ hpaths ?_ hdrop (by rw [hexpected]; exact if_neg hlen)
        rw [htake, Revision.blobAt, hentry]
        simp only [decide_eq_true_eq]
    | none =>
      have hbuffer : reader.buffer ++ unprinted = paths.flatMap revision.answer := by
        rw [Stands, hexpected] at hstands
        exact hstands
      have hwait (h : splitLine reader.buffer = none) :
          Absorbed revision reader (absorbLoop reader) id paths unprinted := by
        rw [absorbLoop_wait (by rw [hexpected, progress, h])]
        exact hrefl
      cases hpaths : paths with
      | nil =>
        rw [hpaths, List.flatMap_nil] at hbuffer
        have hnil := (List.append_eq_nil_iff.1 hbuffer).1
        rw [← hpaths]
        exact hwait (by rw [hnil]; rfl)
      | cons path paths' =>
        rw [← hpaths]
        rw [hpaths, List.flatMap_cons] at hbuffer
        cases hentry : revision.entry path.bytes with
        | none =>
          have hline : newline ∉ revision.request path ++ missingText := by
            rw [List.mem_append, not_or]
            exact ⟨htold path (by rw [hpaths]; exact List.mem_cons_self) hentry, missingText_line⟩
          have hanswer : revision.answer path =
              revision.request path ++ missingText ++ [newline] := by
            rw [Revision.answer, hentry]
          rw [hanswer, List.append_assoc _ [newline]] at hbuffer
          rcases splitLine_of_append hline hbuffer with h | ⟨left, h, hleft⟩
          · exact hwait h
          · refine hgive none hpaths ?_ hleft ?_
            · rw [Revision.blobAt, hentry]
            · rw [hexpected, progress, h]
              exact readHeader_missing _ left
        | some object =>
          have hanswer : revision.answer path =
              object.header ++ [newline] ++ object.contents ++ [newline] := by
            rw [Revision.answer, hentry]
          have htail : revision.answer path ++ paths'.flatMap revision.answer =
              object.header ++ newline ::
                (object.contents ++ newline :: paths'.flatMap revision.answer) := by
            rw [hanswer]
            simp only [List.append_assoc, List.cons_append, List.nil_append]
          rw [htail] at hbuffer
          rcases splitLine_of_append object.header_line hbuffer with h | ⟨left, h, hleft⟩
          · exact hwait h
          · have hprogress : progress reader.buffer reader.expected =
                readHeader object.header left := by
              rw [hexpected, progress, h]
            rw [readHeader_object] at hprogress
            by_cases hsafe : (object.contents.length : Int) ≤ maxSafeInteger
            · rw [if_pos hsafe] at hprogress
              rw [absorbLoop_header hprogress]
              have hheader : Stands revision
                  { reader with
                    buffer := left
                    expected := some ⟨object.contents.length, object.type = .blob⟩ }
                  paths unprinted := by
                rw [Stands]
                exact ⟨path, paths', object, hpaths, hentry, rfl, hleft⟩
              have hnext := @ih left.length (hshort (by rw [hprogress]; rfl))
                { reader with
                  buffer := left
                  expected := some ⟨object.contents.length, object.type = .blob⟩ }
                id paths htold hwaiting hheader rfl
              exact ⟨hnext.steps⟩
            · rw [if_neg hsafe] at hprogress
              rw [absorbLoop_unparsable hprogress]
              refine ⟨[], paths, rfl, .inr ⟨rfl, rfl, ?_⟩⟩
              rw [fail, hwaiting]
              simp only [answers, List.append_nil, List.length_nil, Nat.add_zero]

/-! ## Every run -/

/-- What holds of the reader in a run of requests that can be told: the first
    requests are answered and the others wait, or were all rejected. -/
inductive Kept (revision : Revision) (world : World) : Prop
  | live (done rest : List RepositoryPath) (hwritten : world.written = done ++ rest)
      (hfailure : world.reader.failure = false) (hended : world.ended = false)
      (hstands : Stands revision world.reader rest world.unprinted)
      (hwaiting : world.reader.waiting = List.range' done.length rest.length)
      (hsettled : world.reader.settled = answers revision 0 done)
  | failed (done rest : List RepositoryPath) (hwritten : world.written = done ++ rest)
      (hfailure : world.reader.failure = true) (hwaiting : world.reader.waiting = [])
      (hsettled : world.reader.settled = answers revision 0 done ++
        (List.range' done.length rest.length).map fun id => (id, .rejected))

theorem Stands.append {revision : Revision} {reader : Reader} {paths : List RepositoryPath}
    {unprinted : List Byte} (h : Stands revision reader paths unprinted)
    (more : List RepositoryPath) :
    Stands revision reader (paths ++ more) (unprinted ++ more.flatMap revision.answer) := by
  rw [Stands] at h ⊢
  split at h
  · rw [← List.append_assoc, h, List.flatMap_append]
  · obtain ⟨path, rest, object, rfl, hentry, hexpected, hbuffer⟩ := h
    refine ⟨path, rest ++ more, object, rfl, hentry, hexpected, ?_⟩
    rw [← List.append_assoc, hbuffer, List.flatMap_append, List.append_assoc, List.cons_append]

theorem Stands.chunk {revision : Revision} {reader : Reader} {paths : List RepositoryPath}
    {bytes unprinted : List Byte} (h : Stands revision reader paths (bytes ++ unprinted)) :
    Stands revision { reader with buffer := reader.buffer ++ bytes } paths unprinted := by
  rw [Stands] at h ⊢
  rw [List.append_assoc]
  exact h

theorem absorbLoop_idle [NumberText] {reader : Reader} (h : reader.waiting = []) :
    (absorbLoop reader).waiting = [] ∧ (absorbLoop reader).settled = reader.settled ∧
      (reader.failure = true → (absorbLoop reader).failure = true) := by
  induction hn : reader.buffer.length using Nat.strong_induction_on generalizing reader with
  | _ n ih =>
    have hshort {rest : List Byte}
        (h : (progress reader.buffer reader.expected).left = some rest) : rest.length < n :=
      hn ▸ progress_shorter h
    cases hprogress : progress reader.buffer reader.expected with
    | wait =>
      rw [absorbLoop_wait hprogress]
      exact ⟨h, rfl, id⟩
    | header expected rest =>
      rw [absorbLoop_header hprogress]
      exact @ih rest.length (hshort (by rw [hprogress]; rfl))
        { reader with buffer := rest, expected := some expected } h rfl
    | deliver value rest =>
      rw [absorbLoop_deliver hprogress, show deliver reader value = reader by rw [deliver, h]]
      exact @ih rest.length (hshort (by rw [hprogress]; rfl))
        { reader with buffer := rest, expected := none } h rfl
    | unparsable rest =>
      rw [absorbLoop_unparsable hprogress]
      refine ⟨rfl, ?_, fun _ => rfl⟩
      rw [fail, h]
      exact List.append_nil _

theorem answers_append (revision : Revision) (id : Nat) (paths more : List RepositoryPath) :
    answers revision id (paths ++ more) =
      answers revision id paths ++ answers revision (id + paths.length) more := by
  induction paths generalizing id with
  | nil => rfl
  | cons path paths ih =>
    rw [List.cons_append, answers, ih, answers, List.cons_append, List.length_cons,
      Nat.add_right_comm, Nat.add_assoc]

theorem Kept.fail {revision : Revision} {world : World} (h : Kept revision world) (ended : Bool) :
    Kept revision { world with reader := fail world.reader, ended } := by
  cases h with
  | live done rest hwritten _ _ _ hwaiting hsettled =>
    refine .failed done rest hwritten rfl rfl ?_
    rw [Batch.fail, hwaiting, hsettled]
  | failed done rest hwritten _ hwaiting hsettled =>
    refine .failed done rest hwritten rfl rfl ?_
    rw [Batch.fail, hwaiting, hsettled]
    exact List.append_nil _

theorem Kept.read {revision : Revision} {world : World} (h : Kept revision world)
    (paths : List RepositoryPath) : Kept revision (read revision world paths) := by
  rw [Batch.read]
  cases h with
  | live done rest hwritten hfailure hended hstands hwaiting hsettled =>
    rw [if_neg (by rw [hfailure]; exact Bool.false_ne_true)]
    refine .live done (rest ++ paths) ?_ hfailure hended (hstands.append paths) ?_ hsettled
    · rw [hwritten, List.append_assoc]
    · rw [hwaiting, hwritten, List.length_append, List.length_append, List.range'_append_1]
  | failed done rest hwritten hfailure hwaiting hsettled =>
    rw [if_pos hfailure]
    exact .failed done rest hwritten hfailure hwaiting hsettled

theorem Kept.chunk [NumberText] {revision : Revision} {world : World} (h : Kept revision world)
    (htold : ∀ path ∈ world.written, Told revision path) {bytes : List Byte}
    (hbytes : bytes <+: world.unprinted) :
    Kept revision { world with
      reader := absorb world.reader bytes
      unprinted := world.unprinted.drop bytes.length } := by
  obtain ⟨behind, hbehind⟩ := hbytes
  cases h with
  | live done rest hwritten hfailure hended hstands hwaiting hsettled =>
    rw [← hbehind] at hstands
    have hrest : ∀ path ∈ rest, Told revision path := fun path hp =>
      htold path (by rw [hwritten]; exact List.mem_append_right _ hp)
    obtain ⟨read, left, rfl, hread⟩ :=
      (absorbLoop_answers hrest (by exact hwaiting) hstands.chunk).steps
    rw [← hbehind, List.drop_left]
    have hdone : world.reader.settled ++ answers revision done.length read =
        answers revision 0 (done ++ read) := by
      rw [hsettled, answers_append, Nat.zero_add]
    rcases hread with ⟨hfail, hstands', hwait, hsettle⟩ | ⟨hfail, hwait, hsettle⟩
    · refine .live (done ++ read) left (by rw [hwritten, List.append_assoc])
        (hfail.trans hfailure) hended hstands' ?_ (hsettle.trans hdone)
      rw [List.length_append]
      exact hwait
    · refine .failed (done ++ read) left (by rw [hwritten, List.append_assoc]) hfail hwait ?_
      rw [← hdone, List.length_append]
      exact hsettle
  | failed done rest hwritten hfailure hwaiting hsettled =>
    obtain ⟨hwait, hsettle, hfail⟩ :=
      @absorbLoop_idle _ { world.reader with buffer := world.reader.buffer ++ bytes } hwaiting
    exact .failed done rest hwritten (hfail hfailure) hwait (hsettle.trans hsettled)

/-- What a run keeps: the requests can be told, and the reader is as it should be. -/
def Sound (revision : Revision) (world : World) : Prop :=
  (∀ path ∈ world.written, Told revision path) ∧ Kept revision world

/-- **Every step keeps it** whose requests can be told. -/
theorem step_sound [NumberText] {revision : Revision} (world : World) (event : Event)
    (after : World) (h : Sound revision world) (htells : Tells revision world event)
    (hstep : step revision world event = some after) : Sound revision after := by
  obtain ⟨htold, hkept⟩ := h
  cases event with
  | read paths =>
    cases hstep
    refine ⟨?_, hkept.read paths⟩
    rw [read]
    split
    · exact htold
    · intro path hp
      exact (List.mem_append.1 hp).elim (htold path) (htells path)
  | chunk bytes =>
    rw [step] at hstep
    split at hstep
    · rename_i hc
      cases hstep
      exact ⟨htold, hkept.chunk htold (List.isPrefixOf_iff_prefix.1 hc.1)⟩
    · cases hstep
  | error =>
    cases hstep
    exact ⟨htold, hkept.fail world.ended⟩
  | close =>
    cases hstep
    exact ⟨htold, hkept.fail true⟩

/-! ## What a caller is answered -/

theorem answers_ids (revision : Revision) (id : Nat) (paths : List RepositoryPath) :
    (answers revision id paths).map Prod.fst = List.range' id paths.length := by
  induction paths generalizing id with
  | nil => rfl
  | cons path paths ih => rw [answers, List.map_cons, ih, List.length_cons, List.range'_succ]

theorem mem_answers {revision : Revision} {id : Nat} {paths : List RepositoryPath}
    {entry : Nat × Outcome} (h : entry ∈ answers revision id paths) :
    ∃ i path, paths[i]? = some path ∧ entry = (id + i, .resolved (revision.blobAt path)) := by
  induction paths generalizing id with
  | nil => cases h
  | cons path paths ih =>
    rcases List.mem_cons.1 h with rfl | h
    · exact ⟨0, path, rfl, rfl⟩
    · obtain ⟨i, path', hi, rfl⟩ := ih h
      exact ⟨i + 1, path', hi, by rw [Nat.add_right_comm, Nat.add_assoc]⟩

theorem answers_own {revision : Revision} {done rest : List RepositoryPath} {id : Nat}
    {value : Option (List Byte)} (h : (id, Outcome.resolved value) ∈ answers revision 0 done) :
    ∃ path, (done ++ rest)[id]? = some path ∧ value = revision.blobAt path := by
  obtain ⟨i, path, hi, heq⟩ := mem_answers h
  rw [Nat.zero_add] at heq
  cases heq
  exact ⟨path, List.getElem?_append_left (List.getElem?_eq_some_iff.1 hi).1 ▸ hi, rfl⟩

theorem Kept.answered {revision : Revision} {world : World} (h : Kept revision world) :
    Answered revision world := by
  cases h with
  | live done rest hwritten _ hended _ hwaiting hsettled =>
    refine ⟨fun id value hmem => ?_, ?_, fun id hid => ?_, fun hend => ?_⟩
    · rw [hsettled] at hmem
      rw [hwritten]
      exact answers_own hmem
    · rw [hsettled, answers_ids]
      exact List.nodup_range'
    · rw [hwritten, List.length_append] at hid
      rw [hsettled, answers_ids, hwaiting, List.mem_range'_1, List.mem_range'_1]
      omega
    · rw [hended] at hend
      cases hend
  | failed done rest hwritten _ hwaiting hsettled =>
    have hids : world.reader.settled.map Prod.fst =
        List.range' 0 (done.length + rest.length) := by
      rw [hsettled, List.map_append, answers_ids, List.map_map, ← List.range'_append_1,
        Nat.zero_add]
      exact congrArg _ (List.map_id _)
    refine ⟨fun id value hmem => ?_, ?_, fun id hid => .inr ?_, fun _ => hwaiting⟩
    · rw [hsettled] at hmem
      rw [hwritten]
      rcases List.mem_append.1 hmem with hmem | hmem
      · exact answers_own hmem
      · obtain ⟨_, -, heq⟩ := List.mem_map.1 hmem
        cases heq
    · rw [hids]
      exact List.nodup_range'
    · rw [hwritten, List.length_append] at hid
      rw [hids, List.mem_range'_1]
      omega

/-- `Number` of a run of digits. -/
def digitsNumber (text : List Byte) : Option Nat :=
  let value := Json.natValue (text.map UInt8.toUInt16)
  if text.all (fun b => 48 ≤ b && b ≤ 57) = true ∧ (value : Int) ≤ maxSafeInteger then some value
  else none

theorem natValue_decimal (n : Nat) : Json.natValue ((decimal n).map UInt8.toUInt16) = n := by
  have hunits : (decimal n).map UInt8.toUInt16 = Json.natUnits n := by
    rw [decimal, Json.natUnits, List.map_map]
    refine List.map_congr_left fun c hc => ?_
    have hbounds := Json.digitChar_bounds hc
    have hbyte : c.toNat.toUInt8.toNat = c.toNat :=
      UInt8.toNat_ofNat_of_lt' (show c.toNat < 256 by omega)
    rw [Function.comp_apply, ← UInt16.toNat_inj, UInt8.toNat_toUInt16, hbyte,
      Json.digitChar_toNat hc]
  rw [hunits, Json.natValue_natUnits]

theorem digitsNumber_decimal {n : Nat} (h : (n : Int) ≤ maxSafeInteger) :
    digitsNumber (decimal n) = some n := by
  have hall : (decimal n).all (fun b => 48 ≤ b && b ≤ 57) = true :=
    List.all_eq_true.2 fun b hb => by
      simp only [(decimal_digit hb).1, (decimal_digit hb).2, decide_true, Bool.and_self]
  simp only [digitsNumber, natValue_decimal, hall, h, and_self, if_true]

theorem digitsNumber_unsafe {n : Nat} (h : maxSafeInteger < (n : Int)) :
    digitsNumber (decimal n) = none := by
  simp only [digitsNumber, natValue_decimal, Int.not_le.2 h, and_false, if_false]

theorem digitsNumber_empty : digitsNumber [] = some 0 := by decide

@[reducible] def digitsText : NumberText :=
  ⟨digitsNumber, fun _ => digitsNumber_decimal, fun _ => digitsNumber_unsafe, digitsNumber_empty⟩

theorem plainOid : newline ∉ encodeUtf8 "5f1d" ∧ space ∉ encodeUtf8 "5f1d" := by decide

/-- A blob that holds an `x`. -/
def oneBlob : GitObject := ⟨encodeUtf8 "5f1d", .blob, [120], plainOid⟩

/-- A revision with one file, `c`. -/
def oneFile : Revision := ⟨[114], fun path => if path = [99] then some oneBlob else none⟩

theorem brokenPath_noNul : (0 : Byte) ∉ ([97, 10, 98] : List Byte) := by decide

theorem filePath_noNul : (0 : Byte) ∉ ([99] : List Byte) := by decide

/-- `a\nb` -/
def brokenPath : RepositoryPath := ⟨[97, 10, 98], brokenPath_noNul⟩

def filePath : RepositoryPath := ⟨[99], filePath_noNul⟩

end AgenticGit.Repository.Batch
