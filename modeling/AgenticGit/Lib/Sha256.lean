import AgenticGit.Lib.JsonText

/- SHA-256 of a string, in hexadecimal: what `createHash("sha256")` computes
   over the UTF-8 bytes of a string of code units.

   A word is a natural number below 2^32 and a byte one below 256, so that the
   whole computation is arithmetic on naturals.

   What is proved is the shape of a digest: 64 hexadecimal digits
   (`sha256Hex_length`). That two strings have two digests is not a fact about
   the function; it is what a development that relies on it assumes. -/
namespace AgenticGit.Sha256
open AgenticGit.Json

/-! ## Bytes of a string -/

def pointBytes (p : Nat) : List Nat :=
  if p < 0x80 then [p]
  else if p < 0x800 then [0xC0 + p / 64, 0x80 + p % 64]
  else if p < 0x10000 then [0xE0 + p / 4096, 0x80 + p / 64 % 64, 0x80 + p % 64]
  else [0xF0 + p / 262144, 0x80 + p / 4096 % 64, 0x80 + p / 64 % 64, 0x80 + p % 64]

/-- The UTF-8 bytes of a string; a half of a pair on its own is written as the
replacement character. -/
def utf8 : Units → List Nat
  | [] => []
  | [u] => if isHighSurrogate u || isLowSurrogate u then pointBytes 0xFFFD else pointBytes u.toNat
  | u :: v :: rest =>
    if isHighSurrogate u && isLowSurrogate v then
      pointBytes (0x10000 + (u.toNat - 0xD800) * 0x400 + (v.toNat - 0xDC00)) ++ utf8 rest
    else if isHighSurrogate u || isLowSurrogate u then pointBytes 0xFFFD ++ utf8 (v :: rest)
    else pointBytes u.toNat ++ utf8 (v :: rest)

/-! ## Words -/

def wordSize : Nat := 0x100000000

def rotr (n x : Nat) : Nat := ((x >>> n) ||| (x <<< (32 - n))) % wordSize

def bigSigma0 (x : Nat) : Nat := rotr 2 x ^^^ rotr 13 x ^^^ rotr 22 x
def bigSigma1 (x : Nat) : Nat := rotr 6 x ^^^ rotr 11 x ^^^ rotr 25 x
def smallSigma0 (x : Nat) : Nat := rotr 7 x ^^^ rotr 18 x ^^^ (x >>> 3)
def smallSigma1 (x : Nat) : Nat := rotr 17 x ^^^ rotr 19 x ^^^ (x >>> 10)

def choose (x y z : Nat) : Nat := (x &&& y) ^^^ ((wordSize - 1 - x) &&& z)
def majority (x y z : Nat) : Nat := (x &&& y) ^^^ (x &&& z) ^^^ (y &&& z)

def roundConstants : List Nat :=
  [0x428a2f98, 0x71374491, 0xb5c0fbcf, 0xe9b5dba5, 0x3956c25b, 0x59f111f1,
    0x923f82a4, 0xab1c5ed5, 0xd807aa98, 0x12835b01, 0x243185be, 0x550c7dc3,
    0x72be5d74, 0x80deb1fe, 0x9bdc06a7, 0xc19bf174, 0xe49b69c1, 0xefbe4786,
    0x0fc19dc6, 0x240ca1cc, 0x2de92c6f, 0x4a7484aa, 0x5cb0a9dc, 0x76f988da,
    0x983e5152, 0xa831c66d, 0xb00327c8, 0xbf597fc7, 0xc6e00bf3, 0xd5a79147,
    0x06ca6351, 0x14292967, 0x27b70a85, 0x2e1b2138, 0x4d2c6dfc, 0x53380d13,
    0x650a7354, 0x766a0abb, 0x81c2c92e, 0x92722c85, 0xa2bfe8a1, 0xa81a664b,
    0xc24b8b70, 0xc76c51a3, 0xd192e819, 0xd6990624, 0xf40e3585, 0x106aa070,
    0x19a4c116, 0x1e376c08, 0x2748774c, 0x34b0bcb5, 0x391c0cb3, 0x4ed8aa4a,
    0x5b9cca4f, 0x682e6ff3, 0x748f82ee, 0x78a5636f, 0x84c87814, 0x8cc70208,
    0x90befffa, 0xa4506ceb, 0xbef9a3f7, 0xc67178f2]

/-- The eight working variables. -/
structure Words where
  a : Nat
  b : Nat
  c : Nat
  d : Nat
  e : Nat
  f : Nat
  g : Nat
  h : Nat
  deriving DecidableEq, Repr

def initial : Words :=
  ⟨0x6a09e667, 0xbb67ae85, 0x3c6ef372, 0xa54ff53a, 0x510e527f, 0x9b05688c, 0x1f83d9ab, 0x5be0cd19⟩

/-! ## Blocks -/

/-- Four bytes a word, the first the highest. -/
def wordsOf : List Nat → List Nat
  | a :: b :: c :: d :: rest => (a * 0x1000000 + b * 0x10000 + c * 0x100 + d) :: wordsOf rest
  | _ => []

/-- The message schedule, newest word first, with `count` words still to come. -/
def extend : Nat → List Nat → List Nat
  | 0, ws => ws
  | count + 1, ws =>
    extend count ((smallSigma1 (ws.getD 1 0) + ws.getD 6 0 + smallSigma0 (ws.getD 14 0) +
      ws.getD 15 0) % wordSize :: ws)

def schedule (block : List Nat) : List Nat := (extend 48 (wordsOf block).reverse).reverse

def round (s : Words) (kw : Nat × Nat) : Words :=
  let t₁ := s.h + bigSigma1 s.e + choose s.e s.f s.g + kw.1 + kw.2
  let t₂ := bigSigma0 s.a + majority s.a s.b s.c
  ⟨(t₁ + t₂) % wordSize, s.a, s.b, s.c, (s.d + t₁) % wordSize, s.e, s.f, s.g⟩

def compress (s : Words) (block : List Nat) : Words :=
  let t := (roundConstants.zip (schedule block)).foldl round s
  ⟨(s.a + t.a) % wordSize, (s.b + t.b) % wordSize, (s.c + t.c) % wordSize,
    (s.d + t.d) % wordSize, (s.e + t.e) % wordSize, (s.f + t.f) % wordSize,
    (s.g + t.g) % wordSize, (s.h + t.h) % wordSize⟩

/-- A 1 bit, zeros up to the length of a block less eight, and the length in
bits. -/
def pad (message : List Nat) : List Nat :=
  let bits := message.length * 8
  message ++ 0x80 :: List.replicate ((119 - message.length % 64) % 64) 0 ++
    (List.range 8).map fun i => bits >>> (8 * (7 - i)) % 256

/-- The blocks of a padded message, of which there are `count`. -/
def absorb : Nat → Words → List Nat → Words
  | 0, s, _ => s
  | count + 1, s, message => absorb count (compress s (message.take 64)) (message.drop 64)

def digest (message : List Nat) : Words :=
  let padded := pad message
  absorb (padded.length / 64) initial padded

/-! ## The digest as text -/

def wordUnits (w : Nat) : Units := (List.range 8).map fun i => hexUnit (w >>> (4 * (7 - i)) % 16)

def digestUnits (s : Words) : Units :=
  [s.a, s.b, s.c, s.d, s.e, s.f, s.g, s.h].flatMap wordUnits

/-- `createHash("sha256").update(value, "utf8").digest("hex")`. -/
def sha256Hex (value : Units) : Units := digestUnits (digest (utf8 value))

example : sha256Hex (ascii "abc") =
    ascii "ba7816bf8f01cfea414140de5dae2223b00361a396177a9cb410ff61f20015ad" := by
  decide

theorem wordUnits_length (w : Nat) : (wordUnits w).length = 8 := by
  simp [wordUnits]

theorem sha256Hex_length (value : Units) : (sha256Hex value).length = 64 := by
  simp [sha256Hex, digestUnits, wordUnits_length]

end AgenticGit.Sha256
