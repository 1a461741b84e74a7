import AgenticGit.Lib.Buffers
import AgenticGit.Lib.Incremental

/- RFC 6455 framing: `encodeFrame` and the `FrameReader` of `ws-frame.ts`.

   Correspondence (TypeScript ↔ Lean):
     `writeUInt16BE`, `writeBigUInt64BE`     ↔ `writeBE` of two and of eight bytes
     `readUInt16BE`, `readBigUInt64BE`       ↔ `readBE`
     `FrameEvent`, `FrameReaderOptions`      ↔ the same names
     `input`, and the three `fragment..` fields ↔ `FrameReader.input`, `FragmentState`
     `readFrame`, from the control frames on ↔ `readFrame`, `acceptFrame`
     `push`, its `for (;;)`                  ↔ `push`, `pushLoop`
     a caller, which closes on a `close` and on a `fault` ↔ `pushAll` -/
namespace AgenticGit.Gateway
open AgenticGit.Buffers

def opcodeContinuation : Byte := 0x0
def opcodeText : Byte := 0x1
def opcodeBinary : Byte := 0x2
def opcodeClose : Byte := 0x8
def opcodePing : Byte := 0x9
def opcodePong : Byte := 0xa

/-! ## encodeFrame -/

def encodeFrame (opcode : Byte) (payload : List Byte) : List Byte :=
  let header :=
    if payload.length < 126 then [0x80 ||| opcode, UInt8.ofNat payload.length]
    else if payload.length ≤ 0xffff then [0x80 ||| opcode, 126] ++ writeBE 2 payload.length
    else [0x80 ||| opcode, 127] ++ writeBE 8 payload.length
  header ++ payload

/-! ## FrameReader -/

inductive FrameEvent where
  | text (data : String)
  | ping (payload : List Byte)
  | pong
  | close
  | fault (code : Nat) (reason : String)
  deriving DecidableEq, Repr

structure FrameReaderOptions where
  /-- Largest single message, after reassembling continuation frames. -/
  maxMessageBytes : Nat
  /-- Largest amount of unparsed input to hold before giving up. -/
  maxBufferBytes : Nat
  deriving DecidableEq, Repr

/-- The message that is being reassembled. -/
structure FragmentState where
  fragments : List (List Byte)
  fragmentBytes : Nat
  fragmentOpcode : Option Byte
  deriving DecidableEq, Repr

structure FrameReader where
  input : List Byte
  state : FragmentState
  deriving DecidableEq, Repr

def FragmentState.idle : FragmentState := ⟨[], 0, none⟩

/-- `new FrameReader(options)`. -/
def FrameReader.new : FrameReader := ⟨[], .idle⟩

/-- What `readFrame` answers, with the events it appended and the reader it left. -/
inductive FrameRead where
  | incomplete
  | faulted (events : List FrameEvent) (reader : FrameReader)
  | read (events : List FrameEvent) (reader : FrameReader)
  deriving DecidableEq, Repr

/-- What the reader makes of the length of a frame. -/
inductive LengthRead where
  | incomplete
  | tooLarge
  | length (length offset : Nat)
  deriving DecidableEq, Repr

def FrameEvent.ends : FrameEvent → Bool
  | .close | .fault _ _ => true
  | _ => false

/-- An answer that does not depend on what is behind the frame, and that the caller closes on
just when it is the last. -/
def Answered (answer : List Byte → FrameRead) : Prop :=
  (∃ events s', events.any (·.ends) = false ∧ ∀ rest, answer rest = .read events ⟨rest, s'⟩) ∨
    ∃ event s', event.ends = true ∧ ∀ rest, answer rest = .faulted [event] ⟨rest, s'⟩

theorem Answered.read {events : List FrameEvent} (h : events.any (·.ends) = false)
    (s : FragmentState) : Answered fun rest => .read events ⟨rest, s⟩ :=
  .inl ⟨events, s, h, fun _ => rfl⟩

theorem Answered.fault {event : FrameEvent} (h : event.ends = true) (s : FragmentState) :
    Answered fun rest => .faulted [event] ⟨rest, s⟩ := .inr ⟨event, s, h, fun _ => rfl⟩

theorem Answered.ite {p : Prop} [Decidable p] {answer answer' : List Byte → FrameRead}
    (h : Answered answer) (h' : Answered answer') :
    Answered fun rest => if p then answer rest else answer' rest := by
  by_cases hp : p
  · simpa only [if_pos hp] using h
  · simpa only [if_neg hp] using h'

def readLength (options : FrameReaderOptions) (input : List Byte) (second : Byte) : LengthRead :=
  let length := (second &&& 0x7f).toNat
  if length = 126 then
    if input.length < 4 then .incomplete else .length (readBE ((input.drop 2).take 2)) 4
  else if length = 127 then
    if input.length < 10 then .incomplete
    else
      let wide := readBE ((input.drop 2).take 8)
      if wide > options.maxMessageBytes then .tooLarge else .length wide 10
  else .length length 2

/-- `payload[index] ^ mask[index % 4]`, for every index. -/
def applyMask (mask payload : List Byte) : List Byte :=
  payload.mapIdx fun index byte => byte ^^^ mask.getD (index % 4) 0

section Reader
variable [LossyUtf8] (options : FrameReaderOptions)

/-- `readFrame`, once the frame is out of the input. -/
def acceptFrame (reader : FrameReader) (final : Bool) (opcode : Byte) (payload : List Byte) :
    FrameRead :=
  let state := reader.state
  if opcode = opcodeClose then .faulted [.close] reader
  else if opcode = opcodePing then
    if !final then .faulted [.fault 1002 "Control frames cannot be fragmented"] reader
    else .read [.ping payload] reader
  else if opcode = opcodePong then .read [.pong] reader
  else if opcode = opcodeBinary then
    .faulted [.fault 1003 "Binary frames are not accepted"] reader
  else if opcode ≠ opcodeText ∧ opcode ≠ opcodeContinuation then
    .faulted [.fault 1003 "Unsupported frame"] reader
  else if opcode = opcodeContinuation ∧ state.fragmentOpcode = none then
    .faulted [.fault 1002 "Continuation without a start frame"] reader
  else if opcode = opcodeText ∧ state.fragmentOpcode ≠ none then
    .faulted [.fault 1002 "A new message started before the previous one finished"] reader
  else
    let fragmentBytes := state.fragmentBytes + payload.length
    if fragmentBytes > options.maxMessageBytes then
      .faulted [.fault 1009 "Message too large"]
        { reader with state := { state with fragmentBytes } }
    else
      let fragments := state.fragments ++ [payload]
      let fragmentOpcode := if opcode = opcodeText then some opcodeText else state.fragmentOpcode
      if !final then .read [] { reader with state := ⟨fragments, fragmentBytes, fragmentOpcode⟩ }
      else .read [.text (decodeUtf8 fragments.flatten)] { reader with state := .idle }

def readFrame (reader : FrameReader) : FrameRead :=
  match reader.input with
  | first :: second :: _ =>
    let input := reader.input
    let final : Bool := first &&& 0x80 ≠ 0
    let reserved := first &&& 0x70
    let opcode := first &&& 0x0f
    let masked : Bool := second &&& 0x80 ≠ 0
    if reserved ≠ 0 then .faulted [.fault 1002 "Reserved bits set"] reader
    else
      match readLength options input second with
      | .incomplete => .incomplete
      | .tooLarge => .faulted [.fault 1009 "Frame too large"] reader
      | .length length offset =>
        if !masked then .faulted [.fault 1002 "Client frames must be masked"] reader
        else if length > options.maxMessageBytes then
          .faulted [.fault 1009 "Frame too large"] reader
        else if input.length < offset + 4 + length then .incomplete
        else
          let mask := (input.drop offset).take 4
          let payload := applyMask mask ((input.drop (offset + 4)).take length)
          acceptFrame options { reader with input := input.drop (offset + 4 + length) } final
            opcode payload
  | _ => .incomplete

theorem acceptFrame_answered (s : FragmentState) (final : Bool) (opcode : Byte)
    (payload : List Byte) :
    Answered fun rest => acceptFrame options ⟨rest, s⟩ final opcode payload := by
  unfold acceptFrame
  dsimp only
  refine .ite (.fault rfl _) (.ite (.ite (.fault rfl _) (.read rfl _)) (.ite (.read rfl _) ?_))
  refine .ite (.fault rfl _) (.ite (.fault rfl _) (.ite (.fault rfl _) (.ite (.fault rfl _) ?_)))
  exact .ite (.fault rfl _) (.ite (.read rfl _) (.read rfl _))

theorem acceptFrame_input {reader reader' : FrameReader} {final : Bool} {opcode : Byte}
    {payload : List Byte} {events : List FrameEvent}
    (h : acceptFrame options reader final opcode payload = .read events reader') :
    reader'.input = reader.input := by
  obtain ⟨input, s⟩ := reader
  rcases acceptFrame_answered options s final opcode payload with
    ⟨events', s', -, hread⟩ | ⟨event, s', -, hread⟩
  · dsimp only at hread
    rw [hread input] at h
    cases h
    rfl
  · dsimp only at hread
    rw [hread input] at h
    cases h

theorem readFrame_shorter {reader reader' : FrameReader} {events : List FrameEvent}
    (h : readFrame options reader = .read events reader') :
    reader'.input.length < reader.input.length := by
  unfold readFrame at h
  split at h
  · rename_i first second tail hinput
    simp only at h
    split at h
    · cases h
    · split at h
      · cases h
      · cases h
      · split at h
        · cases h
        · split at h
          · cases h
          · split at h
            · cases h
            · rw [acceptFrame_input options h, List.length_drop, hinput]
              simp only [List.length_cons]
              omega
  · cases h

/-- The `for (;;)` of `push`. -/
def pushLoop (reader : FrameReader) : List FrameEvent × FrameReader :=
  match h : readFrame options reader with
  | .incomplete => ([], reader)
  | .faulted events reader' => (events, reader')
  | .read events reader' =>
    have : reader'.input.length < reader.input.length := readFrame_shorter options h
    let result := pushLoop reader'
    (events ++ result.1, result.2)
termination_by reader.input.length

def push (reader : FrameReader) (chunk : List Byte) : List FrameEvent × FrameReader :=
  let input := reader.input ++ chunk
  if input.length > options.maxBufferBytes then
    ([.fault 1009 "Frame too large"], { reader with input })
  else pushLoop options { reader with input }

/-- The chunks of a connection, until the caller closes it. -/
def pushAll (reader : FrameReader) : List (List Byte) → List FrameEvent
  | [] => []
  | chunk :: chunks =>
    let (events, reader') := push options reader chunk
    if events.any (·.ends) then events else events ++ pushAll reader' chunks

end Reader

/-! ## The bytes of a frame -/

/-- The three ways a length is sent: in seven bits, in two bytes, in eight. -/
inductive LengthForm where
  | short | medium | long
  deriving DecidableEq, Repr

namespace LengthForm

def code (form : LengthForm) (length : Nat) : Nat :=
  match form with
  | .short => length
  | .medium => 126
  | .long => 127

def extension (form : LengthForm) (length : Nat) : List Byte :=
  match form with
  | .short => []
  | .medium => writeBE 2 length
  | .long => writeBE 8 length

def Fits (form : LengthForm) (length : Nat) : Prop :=
  match form with
  | .short => length < 126
  | .medium => length < capacity 2
  | .long => length < capacity 8

end LengthForm

/-- The bit `mask` where it is set. -/
def flagged (mask : Byte) (set : Bool) (value : Byte) : Byte := (if set then mask else 0) ||| value

/-- The first two bytes of a frame, and its length. -/
structure Header where
  final : Bool
  opcode : Byte
  masked : Bool
  form : LengthForm
  length : Nat
  opcode_lt : opcode < 16
  fits : form.Fits length

def Header.bytes (header : Header) : List Byte :=
  flagged 0x80 header.final header.opcode ::
    flagged 0x80 header.masked (UInt8.ofNat (header.form.code header.length)) ::
      header.form.extension header.length

structure Frame where
  final : Bool
  opcode : Byte
  form : LengthForm
  mask : List Byte
  payload : List Byte
  opcode_lt : opcode < 16
  mask_length : mask.length = 4
  fits : form.Fits payload.length

namespace Frame

def header (frame : Frame) : Header :=
  ⟨frame.final, frame.opcode, true, frame.form, frame.payload.length, frame.opcode_lt, frame.fits⟩

def bytes (frame : Frame) : List Byte :=
  frame.header.bytes ++ (frame.mask ++ applyMask frame.mask frame.payload)

end Frame

/-! What the bits of a byte say, for each of the 256. -/

theorem forall_byte {P : Byte → Prop} (h : ∀ n : Fin 256, P (UInt8.ofNat n)) (byte : Byte) :
    P byte := by
  have hbyte := h ⟨byte.toNat, byte.toNat_lt⟩
  rwa [UInt8.ofNat_toNat] at hbyte

theorem first_bits (final : Bool) {opcode : Byte} (h : opcode < 16) :
    (decide (flagged 0x80 final opcode &&& 0x80 ≠ 0)) = final ∧
      flagged 0x80 final opcode &&& 0x70 = 0 ∧ flagged 0x80 final opcode &&& 0x0f = opcode := by
  have hall : ∀ n : Fin 256, UInt8.ofNat n < 16 → ∀ final : Bool,
      (decide (flagged 0x80 final (UInt8.ofNat n) &&& 0x80 ≠ 0)) = final ∧
        flagged 0x80 final (UInt8.ofNat n) &&& 0x70 = 0 ∧
        flagged 0x80 final (UInt8.ofNat n) &&& 0x0f = UInt8.ofNat n := by
    decide +kernel
  exact @forall_byte (fun opcode => opcode < 16 → ∀ final : Bool,
      (decide (flagged 0x80 final opcode &&& 0x80 ≠ 0)) = final ∧
        flagged 0x80 final opcode &&& 0x70 = 0 ∧ flagged 0x80 final opcode &&& 0x0f = opcode)
    hall opcode h final

theorem first_split {first : Byte} (h : first &&& 0x70 = 0) :
    first &&& 0x0f < 16 ∧
      flagged 0x80 (decide (first &&& 0x80 ≠ 0)) (first &&& 0x0f) = first := by
  have hall : ∀ n : Fin 256, UInt8.ofNat n &&& 0x70 = 0 → UInt8.ofNat n &&& 0x0f < 16 ∧
      flagged 0x80 (decide (UInt8.ofNat n &&& 0x80 ≠ 0)) (UInt8.ofNat n &&& 0x0f) =
        UInt8.ofNat n := by
    decide +kernel
  exact @forall_byte (fun first => first &&& 0x70 = 0 → first &&& 0x0f < 16 ∧
    flagged 0x80 (decide (first &&& 0x80 ≠ 0)) (first &&& 0x0f) = first) hall first h

theorem second_bits (masked : Bool) {code : Nat} (h : code < 128) :
    (decide (flagged 0x80 masked (UInt8.ofNat code) &&& 0x80 ≠ 0)) = masked ∧
      (flagged 0x80 masked (UInt8.ofNat code) &&& 0x7f).toNat = code := by
  have hall : ∀ n : Fin 128, ∀ masked : Bool,
      (decide (flagged 0x80 masked (UInt8.ofNat n) &&& 0x80 ≠ 0)) = masked ∧
        (flagged 0x80 masked (UInt8.ofNat n) &&& 0x7f).toNat = n := by
    decide
  exact hall ⟨code, h⟩ masked

theorem second_split (second : Byte) :
    (second &&& 0x7f).toNat < 128 ∧
      flagged 0x80 (decide (second &&& 0x80 ≠ 0)) (UInt8.ofNat (second &&& 0x7f).toNat) =
        second := by
  have hall : ∀ n : Fin 256, (UInt8.ofNat n &&& 0x7f).toNat < 128 ∧
      flagged 0x80 (decide (UInt8.ofNat n &&& 0x80 ≠ 0))
        (UInt8.ofNat (UInt8.ofNat n &&& 0x7f).toNat) = UInt8.ofNat n := by
    decide +kernel
  exact @forall_byte (fun second => (second &&& 0x7f).toNat < 128 ∧
    flagged 0x80 (decide (second &&& 0x80 ≠ 0)) (UInt8.ofNat (second &&& 0x7f).toNat) = second)
    hall second

/-! Masks. -/

@[simp] theorem length_applyMask (mask payload : List Byte) :
    (applyMask mask payload).length = payload.length := List.length_mapIdx

theorem applyMask_applyMask (mask payload : List Byte) :
    applyMask mask (applyMask mask payload) = payload := by
  apply List.ext_getElem?
  intro i
  simp only [applyMask, List.getElem?_mapIdx]
  cases payload[i]? with
  | none => rfl
  | some byte =>
    simp only [Option.map_some, UInt8.xor_assoc, UInt8.xor_self, UInt8.xor_zero]

/-! ## Reading a header -/

theorem LengthForm.code_lt {form : LengthForm} {length : Nat} (h : form.Fits length) :
    form.code length < 128 := by
  cases form with
  | short =>
    have hlt : length < 126 := h
    exact Nat.lt_of_lt_of_le hlt (by decide)
  | medium => exact (by decide : 126 < 128)
  | long => exact (by decide : 127 < 128)

namespace Header

theorem length_bytes (header : Header) :
    header.bytes.length = match header.form with
      | .short => 2
      | .medium => 4
      | .long => 10 := by
  rw [bytes, List.length_cons, List.length_cons]
  cases header.form with
  | short => rfl
  | medium | long => simp only [LengthForm.extension, length_writeBE]

theorem code_lt (header : Header) : header.form.code header.length < 128 :=
  header.form.code_lt header.fits

end Header

/-- **What the reader makes of a header**, whatever follows it. -/
theorem readLength_header (options : FrameReaderOptions) (header : Header) (rest : List Byte) :
    readLength options (header.bytes ++ rest)
        (flagged 0x80 header.masked (UInt8.ofNat (header.form.code header.length))) =
      if header.form = .long ∧ header.length > options.maxMessageBytes then .tooLarge
      else .length header.length header.bytes.length := by
  have hcode := (second_bits header.masked header.code_lt).2
  have hlength := header.length_bytes
  have hfits := header.fits
  cases hform : header.form with
  | short =>
    rw [hform] at hcode hlength hfits
    have hlt : header.length < 126 := hfits
    simp only [LengthForm.code] at hcode
    simp only [readLength, LengthForm.code, hcode, show ¬header.length = 126 by omega,
      show ¬header.length = 127 by omega, if_false, reduceCtorEq, false_and, hlength]
  | medium =>
    rw [hform] at hcode hlength hfits
    have hread : ((header.bytes ++ rest).drop 2).take 2 = writeBE 2 header.length := by
      simp only [Header.bytes, hform, LengthForm.extension, List.cons_append, List.drop_succ_cons,
        List.drop_zero]
      rw [List.take_append_of_le_length (by simp), List.take_of_length_le (by simp)]
    have hlong : ¬(header.bytes ++ rest).length < 4 := by
      rw [List.length_append, hlength]
      exact Nat.not_lt.mpr (Nat.le_add_right _ _)
    simp only [LengthForm.code] at hcode
    simp only [readLength, LengthForm.code, hcode, if_true, hlong, if_false, hread, reduceCtorEq,
      false_and, hlength, readBE_writeBE hfits]
  | long =>
    rw [hform] at hcode hlength hfits
    have hread : ((header.bytes ++ rest).drop 2).take 8 = writeBE 8 header.length := by
      simp only [Header.bytes, hform, LengthForm.extension, List.cons_append, List.drop_succ_cons,
        List.drop_zero]
      rw [List.take_append_of_le_length (by simp), List.take_of_length_le (by simp)]
    have hlong : ¬(header.bytes ++ rest).length < 10 := by
      rw [List.length_append, hlength]
      exact Nat.not_lt.mpr (Nat.le_add_right _ _)
    simp only [LengthForm.code] at hcode
    simp only [readLength, LengthForm.code, hcode, show ¬127 = 126 by decide, if_true, hlong,
      if_false, hread, true_and, hlength, readBE_writeBE hfits]

/-- **Two bytes without reserved bits begin a header**, or there is more to come. -/
theorem header_cases (options : FrameReaderOptions) {first : Byte} (second : Byte)
    (tail : List Byte) (h : first &&& 0x70 = 0) :
    readLength options (first :: second :: tail) second = .incomplete ∨
      ∃ header : Header, ∃ rest, first :: second :: tail = header.bytes ++ rest ∧
        header.final = decide (first &&& 0x80 ≠ 0) ∧ header.opcode = first &&& 0x0f ∧
        header.masked = decide (second &&& 0x80 ≠ 0) := by
  obtain ⟨hopcode, hfirst⟩ := first_split h
  obtain ⟨hcode, hsecond⟩ := second_split second
  by_cases h₁ : (second &&& 0x7f).toNat = 126
  · by_cases hlong : (first :: second :: tail).length < 4
    · exact .inl (by simp only [readLength, h₁, hlong, if_true])
    · have htail : 2 ≤ tail.length := by
        simp only [List.length_cons] at hlong
        omega
      refine .inr ⟨⟨decide (first &&& 0x80 ≠ 0), first &&& 0x0f, decide (second &&& 0x80 ≠ 0),
        .medium, readBE (tail.take 2), hopcode, readBE_take_lt htail⟩, tail.drop 2, ?_, rfl, rfl,
        rfl⟩
      simp only [Header.bytes, LengthForm.code, LengthForm.extension, hfirst,
        ← take_eq_writeBE htail, List.cons_append, List.take_append_drop]
      rw [h₁] at hsecond
      rw [hsecond]
  · by_cases h₂ : (second &&& 0x7f).toNat = 127
    · by_cases hlong : (first :: second :: tail).length < 10
      · exact .inl (by simp only [readLength, h₂, hlong, show ¬127 = 126 by decide, if_true,
          if_false])
      · have htail : 8 ≤ tail.length := by
          simp only [List.length_cons] at hlong
          omega
        refine .inr ⟨⟨decide (first &&& 0x80 ≠ 0), first &&& 0x0f, decide (second &&& 0x80 ≠ 0),
          .long, readBE (tail.take 8), hopcode, readBE_take_lt htail⟩, tail.drop 8, ?_, rfl, rfl,
          rfl⟩
        simp only [Header.bytes, LengthForm.code, LengthForm.extension, hfirst,
          ← take_eq_writeBE htail, List.cons_append, List.take_append_drop]
        rw [h₂] at hsecond
        rw [hsecond]
    · refine .inr ⟨⟨decide (first &&& 0x80 ≠ 0), first &&& 0x0f, decide (second &&& 0x80 ≠ 0),
        .short, (second &&& 0x7f).toNat, hopcode, ?_⟩, tail, ?_, rfl, rfl, rfl⟩
      · show (second &&& 0x7f).toNat < 126
        omega
      · simp only [Header.bytes, LengthForm.code, LengthForm.extension, hfirst, hsecond,
          List.cons_append, List.nil_append]

/-! ## encodeFrame makes a frame -/

end AgenticGit.Gateway
