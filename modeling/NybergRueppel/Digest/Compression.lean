/-!
The compression function of the SHA-2 family. The functions on 32-bit and on 64-bit words differ
only in the width, the rotations and the constants, which `WordFamily` collects.
-/
namespace NybergRueppel.Digest

/-- The word operations and constants of one half of the family. -/
structure WordFamily (W : Type) where
  /-- The bytes of a word. -/
  wordBytes : Nat
  ofBytes : List UInt8 → W
  toBytes : W → List UInt8
  bigSigma0 : W → W
  bigSigma1 : W → W
  smallSigma0 : W → W
  smallSigma1 : W → W
  /-- One constant for every round. -/
  constants : List W

/-- The bytes of a block of sixteen words. -/
def WordFamily.blockBytes {W : Type} (family : WordFamily W) : Nat :=
  16 * family.wordBytes

/-- The eight words of the chaining value. -/
structure Registers (W : Type) where
  a : W
  b : W
  c : W
  d : W
  e : W
  f : W
  g : W
  h : W

/-- The words in their order. -/
def Registers.toList {W : Type} (r : Registers W) : List W :=
  [r.a, r.b, r.c, r.d, r.e, r.f, r.g, r.h]

section Compression

variable {W : Type} [Add W] [XorOp W] [AndOp W] [Complement W] [Inhabited W]

/-- Adds two chaining values word by word. -/
def Registers.add (r s : Registers W) : Registers W :=
  { a := r.a + s.a, b := r.b + s.b, c := r.c + s.c, d := r.d + s.d,
    e := r.e + s.e, f := r.f + s.f, g := r.g + s.g, h := r.h + s.h }

/-- The bits of `f` where `e` is set and those of `g` elsewhere. -/
def choose (e f g : W) : W :=
  (e &&& f) ^^^ (~~~e &&& g)

/-- The bits that at least two of the words have set. -/
def majority (a b c : W) : W :=
  (a &&& b) ^^^ (a &&& c) ^^^ (b &&& c)

/-- One round, with its constant and its word of the schedule. -/
def round (family : WordFamily W) (r : Registers W) (input : W × W) : Registers W :=
  let first := r.h + family.bigSigma1 r.e + choose r.e r.f r.g + input.1 + input.2
  let second := family.bigSigma0 r.a + majority r.a r.b r.c
  { a := first + second, b := r.a, c := r.b, d := r.c,
    e := r.d + first, f := r.e, g := r.f, h := r.g }

/-- Word `i + 16` of a schedule, from the words before it. -/
def nextWord (family : WordFamily W) (words : Array W) (i : Nat) : W :=
  family.smallSigma1 (words.getD (i + 14) default) + words.getD (i + 9) default
    + family.smallSigma0 (words.getD (i + 1) default) + words.getD i default

/-- The words of a block, continued to one word for every round. -/
def schedule (family : WordFamily W) (block : List W) : List W :=
  ((List.range (family.constants.length - 16)).foldl
    (fun words i => words.push (nextWord family words i)) block.toArray).toList

/-- Cuts bytes into words. -/
def wordsOfBytes (family : WordFamily W) (bytes : List UInt8) : List W :=
  (List.range 16).map fun i =>
    family.ofBytes ((bytes.drop (i * family.wordBytes)).take family.wordBytes)

/-- Takes one block into the chaining value. -/
def compress (family : WordFamily W) (r : Registers W) (block : List UInt8) : Registers W :=
  r.add ((family.constants.zip (schedule family (wordsOfBytes family block))).foldl
    (round family) r)

end Compression

/-- A digest in progress: the chaining value, the bytes that do not fill a block yet, with the last
of them first, and the number of all bytes. -/
structure Progress (W : Type) where
  registers : Registers W
  pending : List UInt8
  length : Nat

section Progress

variable {W : Type} [Add W] [XorOp W] [AndOp W] [Complement W] [Inhabited W]

/-- A digest that has taken in nothing. -/
def Progress.start (registers : Registers W) : Progress W :=
  { registers := registers, pending := [], length := 0 }

/-- Takes in one byte, and compresses the block that it fills. -/
def Progress.absorb (family : WordFamily W) (p : Progress W) (byte : UInt8) : Progress W :=
  let pending := byte :: p.pending
  if pending.length < family.blockBytes then { p with pending := pending, length := p.length + 1 }
  else {
    registers := compress family p.registers pending.reverse
    pending := []
    length := p.length + 1 }

/-- Takes in bytes one after the other. -/
def Progress.update (family : WordFamily W) (p : Progress W) (bytes : List UInt8) : Progress W :=
  bytes.foldl (Progress.absorb family) p

/-- A number as the given count of bytes, in big-endian order. -/
def bigEndian (count v : Nat) : List UInt8 :=
  ((List.range count).map fun i => (v >>> (8 * i)).toUInt8).reverse

/-- The bytes that fill the last block: a set bit, zeros, and the length in bits as two words. -/
def padding (family : WordFamily W) (length : Nat) : List UInt8 :=
  let lengthBytes := 2 * family.wordBytes
  let used := (length + 1 + lengthBytes) % family.blockBytes
  0x80 :: List.replicate ((family.blockBytes - used) % family.blockBytes) 0
    ++ bigEndian lengthBytes (8 * length)

/-- The chaining value after the padding, as bytes. -/
def Progress.finish (family : WordFamily W) (p : Progress W) : List UInt8 :=
  (p.update family (padding family p.length)).registers.toList.flatMap family.toBytes

end Progress

end NybergRueppel.Digest
