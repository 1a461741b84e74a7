import Mathlib.Data.List.Basic
import Mathlib.Data.List.Induction
import Mathlib.Tactic.Common

/- Buffers of bytes, as Node has them: integers most and least significant byte first, parts
   of a buffer, UTF-8 text.

   Correspondence (TypeScript ↔ Lean):
     a `Buffer`                                    ↔ a list of `Byte`
     `writeUInt16BE`, `writeBigUInt64BE`           ↔ `writeBE` of two and of eight bytes
     `readUInt16BE`, `readBigUInt64BE`             ↔ `readBE`
     `readUInt16LE`, `readUInt32LE`, `readBigUInt64LE` ↔ `readLE?` of two, four and eight;
                                                     `none`: a `RangeError`
     `buffer.subarray(start, end)`                 ↔ `subarray`
     `buffer.toString("utf8")`                     ↔ `decodeUtf8` -/
namespace AgenticGit.Buffers

abbrev Byte := UInt8

/-! ## Numbers -/

/-- An integer as `count` bytes, the most significant first. -/
def writeBE : Nat → Nat → List Byte
  | 0, _ => []
  | count + 1, value => writeBE count (value / 256) ++ [UInt8.ofNat (value % 256)]

def readBE (bytes : List Byte) : Nat :=
  bytes.foldl (fun value byte => value * 256 + byte.toNat) 0

/-- How many integers `count` bytes can say. -/
def capacity : Nat → Nat
  | 0 => 1
  | count + 1 => capacity count * 256

@[simp] theorem length_writeBE (count value : Nat) : (writeBE count value).length = count := by
  induction count generalizing value with
  | zero => rfl
  | succ count ih => rw [writeBE, List.length_append, ih, List.length_singleton]

theorem readBE_snoc (bytes : List Byte) (byte : Byte) :
    readBE (bytes ++ [byte]) = readBE bytes * 256 + byte.toNat := by
  rw [readBE, List.foldl_append]
  rfl

/-- **What was written is read.** -/
theorem readBE_writeBE {count value : Nat} (h : value < capacity count) :
    readBE (writeBE count value) = value := by
  induction count generalizing value with
  | zero =>
    rw [capacity] at h
    obtain rfl : value = 0 := by omega
    rfl
  | succ count ih =>
    rw [capacity] at h
    have hdiv : value / 256 < capacity count := by omega
    rw [writeBE, readBE_snoc, ih hdiv, UInt8.toNat_ofNat']
    omega

/-- **What is read was written.** -/
theorem writeBE_readBE (bytes : List Byte) : writeBE bytes.length (readBE bytes) = bytes := by
  induction bytes using List.reverseRecOn with
  | nil => rfl
  | append_singleton bytes byte ih =>
    have hlt : byte.toNat < 256 := byte.toNat_lt
    rw [List.length_append, List.length_singleton, readBE_snoc, writeBE,
      show (readBE bytes * 256 + byte.toNat) / 256 = readBE bytes by omega,
      show (readBE bytes * 256 + byte.toNat) % 256 = byte.toNat by omega, ih, UInt8.ofNat_toNat]

theorem readBE_lt (bytes : List Byte) : readBE bytes < capacity bytes.length := by
  induction bytes using List.reverseRecOn with
  | nil => exact Nat.one_pos
  | append_singleton bytes byte ih =>
    have hlt : byte.toNat < 256 := byte.toNat_lt
    rw [List.length_append, List.length_singleton, readBE_snoc, capacity]
    omega

theorem take_eq_writeBE {bytes : List Byte} {count : Nat} (h : count ≤ bytes.length) :
    bytes.take count = writeBE count (readBE (bytes.take count)) := by
  have hlength : (bytes.take count).length = count := List.length_take_of_le h
  conv_lhs => rw [← writeBE_readBE (bytes.take count), hlength]

theorem readBE_take_lt {bytes : List Byte} {count : Nat} (h : count ≤ bytes.length) :
    readBE (bytes.take count) < capacity count := by
  have hlt := readBE_lt (bytes.take count)
  rwa [List.length_take_of_le h] at hlt

def readLE (bytes : List Byte) : Nat :=
  bytes.foldr (fun byte value => value * 256 + byte.toNat) 0

/-- An integer of `count` bytes, when the buffer has them. -/
def readLE? (count : Nat) (buffer : List Byte) (at_ : Nat) : Option Nat :=
  if at_ + count ≤ buffer.length then some (readLE ((buffer.drop at_).take count)) else none

/-- What of the buffer is between the two places. -/
def subarray (buffer : List Byte) (start stop : Nat) : List Byte := (buffer.take stop).drop start

/-! ## Text -/

/-- What `toString` makes of bytes that are not UTF-8: it puts replacement characters in,
and nothing here depends on where. -/
class LossyUtf8 where
  replaceInvalid : List Byte → String

/-- One replacement character for all that is not UTF-8. -/
@[reducible] def replacement : LossyUtf8 := ⟨fun _ => "\uFFFD"⟩

/-- `Buffer.from(text, "utf8")`. -/
def encodeUtf8 (text : String) : List Byte := text.toUTF8.data.toList

/-- `buffer.toString("utf8")`. -/
def decodeUtf8 [LossyUtf8] (bytes : List Byte) : String :=
  (String.fromUTF8? ⟨bytes.toArray⟩).getD (LossyUtf8.replaceInvalid bytes)

theorem decodeUtf8_encodeUtf8 [LossyUtf8] (text : String) :
    decodeUtf8 (encodeUtf8 text) = text := by
  have hbytes : (⟨(encodeUtf8 text).toArray⟩ : ByteArray) = text.toByteArray := rfl
  rw [decodeUtf8, hbytes, String.fromUTF8?, dif_pos text.isValidUTF8]
  rfl

end AgenticGit.Buffers
