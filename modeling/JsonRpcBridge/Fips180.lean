import Mathlib.Data.List.Basic
import Mathlib.Data.Nat.NthRoot.Defs
import Mathlib.Data.Nat.Prime.Basic
import Mathlib.Data.Nat.Sqrt

/-!
# SHA-256 as FIPS 180-4 defines it

Messages of whole bytes. Words are `BitVec 32`; the message schedule is a function of the round, and
the constants are the roots of primes that the standard says they are.

* `pad_length`: the padded message is made of whole blocks.
* `chain_append`: one block more is one application of the compression function more.
-/

namespace Fips180

abbrev Word := BitVec 32

/-! ## Functions (4.1.2) -/

def ch (x y z : Word) : Word := (x &&& y) ^^^ (~~~x &&& z)

def maj (x y z : Word) : Word := (x &&& y) ^^^ (x &&& z) ^^^ (y &&& z)

/-- `Σ₀`, `Σ₁`, `σ₀` and `σ₁`. -/
def bigSigma0 (x : Word) : Word := x.rotateRight 2 ^^^ x.rotateRight 13 ^^^ x.rotateRight 22
def bigSigma1 (x : Word) : Word := x.rotateRight 6 ^^^ x.rotateRight 11 ^^^ x.rotateRight 25
def sigma0 (x : Word) : Word := x.rotateRight 7 ^^^ x.rotateRight 18 ^^^ x >>> 3
def sigma1 (x : Word) : Word := x.rotateRight 17 ^^^ x.rotateRight 19 ^^^ x >>> 10

/-! ## Constants (4.2.2, 5.3.3) -/

/-- The first sixty-four primes. -/
def primes : List Nat := (List.range 312).filter fun n => n.Prime

/-- The first thirty-two bits of the fractional part of a prime's cube root. -/
def constant (p : Nat) : Word := BitVec.ofNat 32 (Nat.nthRoot 3 (p * 2 ^ 96))

def constants : List Word := primes.map constant

theorem primes_eq : primes = [2, 3, 5, 7, 11, 13, 17, 19, 23, 29, 31, 37, 41, 43, 47, 53, 59, 61,
    67, 71, 73, 79, 83, 89, 97, 101, 103, 107, 109, 113, 127, 131, 137, 139, 149, 151, 157, 163,
    167, 173, 179, 181, 191, 193, 197, 199, 211, 223, 227, 229, 233, 239, 241, 251, 257, 263, 269,
    271, 277, 281, 283, 293, 307, 311] := by
  decide +kernel

theorem constants_length : constants.length = 64 := by
  rw [constants, List.length_map, primes_eq]
  rfl

/-- The same of its square root. -/
def initialWord (p : Nat) : Word := BitVec.ofNat 32 (Nat.sqrt (p * 2 ^ 64))

/-- A hash value, or the working variables of the computation. -/
structure Hash where
  (a b c d e f g h : Word)
  deriving DecidableEq

def initial : Hash where
  a := initialWord 2
  b := initialWord 3
  c := initialWord 5
  d := initialWord 7
  e := initialWord 11
  f := initialWord 13
  g := initialWord 17
  h := initialWord 19

/-! ## Padding (5.1.1, 5.2.1) -/

/-- The least number of zero bytes after `0x80` that leaves eight bytes of a block. -/
def zeros (length : Nat) : Nat := (119 - length % 64) % 64

/-- A number as eight bytes, the most significant first. -/
def be64 (n : Nat) : List UInt8 := [7, 6, 5, 4, 3, 2, 1, 0].map fun i => UInt8.ofNat (n >>> (8 * i))

def pad (m : List UInt8) : List UInt8 :=
  m ++ 0x80 :: List.replicate (zeros m.length) 0 ++ be64 (8 * m.length)

theorem zeros_fill (length : Nat) : (length + 1 + zeros length) % 64 = 56 ∧ zeros length < 64 := by
  unfold zeros
  omega

theorem pad_length (m : List UInt8) : (pad m).length % 64 = 0 := by
  obtain ⟨hfill, -⟩ := zeros_fill m.length
  rw [pad, be64]
  simp only [List.length_append, List.length_cons, List.length_replicate, List.length_map,
    List.length_nil]
  omega

/-! ## The hash computation (6.2.2) -/

/-- Four bytes, the most significant first. -/
def word (a b c d : UInt8) : Word := a.toBitVec ++ b.toBitVec ++ c.toBitVec ++ d.toBitVec

/-- `M_t`: a word of a block. -/
def blockWord (block : List UInt8) (t : Nat) : Word :=
  word (block.getD (4 * t) 0) (block.getD (4 * t + 1) 0) (block.getD (4 * t + 2) 0)
    (block.getD (4 * t + 3) 0)

/-- `W_t`. -/
def schedule (block : List UInt8) (t : Nat) : Word :=
  if t < 16 then blockWord block t
  else
    sigma1 (schedule block (t - 2)) + schedule block (t - 7) + sigma0 (schedule block (t - 15)) +
      schedule block (t - 16)

def round (v : Hash) (k w : Word) : Hash :=
  let t1 := v.h + bigSigma1 v.e + ch v.e v.f v.g + k + w
  let t2 := bigSigma0 v.a + maj v.a v.b v.c
  { a := t1 + t2, b := v.a, c := v.b, d := v.c, e := v.d + t1, f := v.e, g := v.f, h := v.g }

def Hash.add (x y : Hash) : Hash where
  a := x.a + y.a
  b := x.b + y.b
  c := x.c + y.c
  d := x.d + y.d
  e := x.e + y.e
  f := x.f + y.f
  g := x.g + y.g
  h := x.h + y.h

/-- The next hash value. -/
def compress (x : Hash) (block : List UInt8) : Hash :=
  x.add ((constants.zipIdx).foldl (fun v kt => round v kt.1 (schedule block kt.2)) x)

/-- The blocks of a message, one after the other. -/
def chain (m : List UInt8) : Hash :=
  (List.range (m.length / 64)).foldl (fun x i => compress x ((m.drop (64 * i)).take 64)) initial

/-- A word as four bytes, the most significant first. -/
def wordBytes (w : Word) : List UInt8 :=
  [24, 16, 8, 0].map fun n => UInt8.ofBitVec ((w >>> n).setWidth 8)

def Hash.bytes (x : Hash) : List UInt8 :=
  [x.a, x.b, x.c, x.d, x.e, x.f, x.g, x.h].flatMap wordBytes

def sha256 (m : List UInt8) : List UInt8 := (chain (pad m)).bytes

theorem chain_append {m block : List UInt8} (hm : m.length % 64 = 0) (hblock : block.length = 64) :
    chain (m ++ block) = compress (chain m) block := by
  have hcount : (m ++ block).length / 64 = m.length / 64 + 1 := by
    rw [List.length_append]
    omega
  rw [chain, hcount, List.range_succ, List.foldl_append, List.foldl_cons, List.foldl_nil, chain]
  have hlast : ((m ++ block).drop (64 * (m.length / 64))).take 64 = block := by
    have hlength : 64 * (m.length / 64) = m.length := by omega
    rw [hlength, List.drop_left, ← hblock, List.take_length]
  refine congrArg₂ compress ?_ hlast
  apply List.foldl_ext
  intro x i hi
  have hi := List.mem_range.mp hi
  rw [List.drop_append_of_le_length (by omega), List.take_append_of_le_length]
  rw [List.length_drop]
  omega

end Fips180
