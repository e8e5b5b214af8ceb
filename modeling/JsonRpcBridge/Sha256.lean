import JsonRpcBridge.Bytes

/-!
# SHA-256

`sha256.h`: the incremental hash object behind the contract, interface and live-report digests.
-/

namespace JsonRpcBridge

/-- The hash object: chaining value, block buffer, message length in bits, bytes used of the
block. -/
structure Sha256 where
  state : Vector UInt32 8 := #v[0x6a09e667, 0xbb67ae85, 0x3c6ef372, 0xa54ff53a,
    0x510e527f, 0x9b05688c, 0x1f83d9ab, 0x5be0cd19]
  block : Vector UInt8 64 := Vector.replicate 64 0
  bits : UInt64 := 0
  used : Nat := 0

namespace Sha256

/-! ## One block

The schedule extends sixteen words to sixty-four, and the rounds go over it. -/

def rotr (x : UInt32) (n : UInt32) : UInt32 := (x >>> n) ||| (x <<< (32 - n))

def k : List UInt32 := [
  0x428a2f98, 0x71374491, 0xb5c0fbcf, 0xe9b5dba5, 0x3956c25b, 0x59f111f1, 0x923f82a4, 0xab1c5ed5,
  0xd807aa98, 0x12835b01, 0x243185be, 0x550c7dc3, 0x72be5d74, 0x80deb1fe, 0x9bdc06a7, 0xc19bf174,
  0xe49b69c1, 0xefbe4786, 0x0fc19dc6, 0x240ca1cc, 0x2de92c6f, 0x4a7484aa, 0x5cb0a9dc, 0x76f988da,
  0x983e5152, 0xa831c66d, 0xb00327c8, 0xbf597fc7, 0xc6e00bf3, 0xd5a79147, 0x06ca6351, 0x14292967,
  0x27b70a85, 0x2e1b2138, 0x4d2c6dfc, 0x53380d13, 0x650a7354, 0x766a0abb, 0x81c2c92e, 0x92722c85,
  0xa2bfe8a1, 0xa81a664b, 0xc24b8b70, 0xc76c51a3, 0xd192e819, 0xd6990624, 0xf40e3585, 0x106aa070,
  0x19a4c116, 0x1e376c08, 0x2748774c, 0x34b0bcb5, 0x391c0cb3, 0x4ed8aa4a, 0x5b9cca4f, 0x682e6ff3,
  0x748f82ee, 0x78a5636f, 0x84c87814, 0x8cc70208, 0x90befffa, 0xa4506ceb, 0xbef9a3f7, 0xc67178f2]

/-- `w[i]` for `i < 16`: the block as big-endian words. -/
def word (block : Vector UInt8 64) (i : Fin 16) : UInt32 :=
  (block[i.val * 4].toUInt32 <<< 24) ||| (block[i.val * 4 + 1].toUInt32 <<< 16) |||
    (block[i.val * 4 + 2].toUInt32 <<< 8) ||| block[i.val * 4 + 3].toUInt32

/-- `n` more words of the schedule, on the words so far with the newest first. -/
def extend : Nat → List UInt32 → List UInt32
  | 0, w => w
  | n + 1, w =>
    let w15 := w.getD 14 0
    let w2 := w.getD 1 0
    let s0 := rotr w15 7 ^^^ rotr w15 18 ^^^ (w15 >>> 3)
    let s1 := rotr w2 17 ^^^ rotr w2 19 ^^^ (w2 >>> 10)
    extend n ((w.getD 15 0 + s0 + w.getD 6 0 + s1) :: w)

/-- `w[0..63]`. -/
def schedule (block : Vector UInt8 64) : List UInt32 :=
  (extend 48 ((List.finRange 16).map (word block)).reverse).reverse

/-- The working variables `a` to `h`. -/
structure Working where
  (a b c d e f g h : UInt32)

def round (v : Working) (kw : UInt32 × UInt32) : Working :=
  let t1 := v.h + (rotr v.e 6 ^^^ rotr v.e 11 ^^^ rotr v.e 25) +
    ((v.e &&& v.f) ^^^ (~~~v.e &&& v.g)) + kw.1 + kw.2
  let t2 := (rotr v.a 2 ^^^ rotr v.a 13 ^^^ rotr v.a 22) +
    ((v.a &&& v.b) ^^^ (v.a &&& v.c) ^^^ (v.b &&& v.c))
  { a := t1 + t2, b := v.a, c := v.b, d := v.c, e := v.d + t1, f := v.e, g := v.f, h := v.g }

def compress (s : Sha256) : Sha256 :=
  let v : Working := ⟨s.state[0], s.state[1], s.state[2], s.state[3],
    s.state[4], s.state[5], s.state[6], s.state[7]⟩
  let v := (k.zip (schedule s.block)).foldl round v
  { s with state := #v[s.state[0] + v.a, s.state[1] + v.b, s.state[2] + v.c, s.state[3] + v.d,
      s.state[4] + v.e, s.state[5] + v.f, s.state[6] + v.g, s.state[7] + v.h] }

/-! ## A message

Bytes come in any number of calls. `updateLoop` is the loop over what is left of one of them. -/

/-- `m_block[m_used++] = b`. -/
def push (s : Sha256) (b : UInt8) : Sha256 :=
  { s with block := s.block.set! s.used b, used := s.used + 1 }

/-- The loop of `update`; every round takes at least one byte, so `data.length` rounds do. -/
def updateLoop : Nat → Sha256 → Bytes → Sha256
  | 0, s, _ => s
  | n + 1, s, data =>
    if data.isEmpty then s
    else
      let take := min data.length (64 - s.used)
      let s := (data.take take).foldl push s
      let s := if s.used == 64 then { s.compress with used := 0 } else s
      updateLoop n s (data.drop take)

def update (s : Sha256) (data : Bytes) : Sha256 :=
  updateLoop data.length { s with bits := s.bits + UInt64.ofNat data.length * 8 } data

/-- Zero bytes up to position `n`. -/
def padTo (s : Sha256) (n : Nat) : Sha256 := (List.replicate (n - s.used) 0).foldl push s

/-- The digest, and the object `reset()` for a new message. -/
def finish (s : Sha256) : List UInt8 × Sha256 :=
  let bits := s.bits
  let s := s.push 0x80
  let s := if s.used > 56 then { (s.padTo 64).compress with used := 0 } else s
  let s := s.padTo 56
  let s := ([7, 6, 5, 4, 3, 2, 1, 0] : List UInt64).foldl
    (fun s i => s.push (bits >>> (i * 8)).toUInt8) s
  let s := s.compress
  let out := s.state.toList.flatMap fun (w : UInt32) =>
    [(w >>> 24).toUInt8, (w >>> 16).toUInt8, (w >>> 8).toUInt8, w.toUInt8]
  (out, { block := s.block })

end Sha256

/-! ## Text

A digest is shown in hexadecimal. -/

/-- Lowercase hex SHA-256 of `bytes`. -/
def sha256Hex (bytes : Bytes) : Bytes :=
  (((({} : Sha256).update bytes).finish).1).flatMap fun (b : UInt8) =>
    [hexDigit (b >>> 4).toNat, hexDigit (b &&& 0x0f).toNat]

theorem utf8_sha256Hex (bytes : Bytes) : Utf8 (sha256Hex bytes) := by
  have hdigit : ∀ n : Nat, n < 16 → (hexDigit n).toNat < 0x80 := by decide
  apply utf8_of_ascii
  intro x hx
  obtain ⟨b, -, hb⟩ := List.mem_flatMap.mp hx
  have hlow : (b &&& 0x0f).toNat < 16 := by
    rw [UInt8.toNat_and]
    exact Nat.lt_of_le_of_lt Nat.and_le_right (by decide)
  have hhigh : (b >>> 4).toNat < 16 := by
    rw [UInt8.toNat_shiftRight]
    have := b.toNat_lt
    simp only [UInt8.reduceToNat, Nat.reduceMod, Nat.shiftRight_eq_div_pow]
    omega
  rcases List.mem_cons.mp hb with rfl | hb
  · exact hdigit _ hhigh
  · rw [List.mem_singleton] at hb
    exact hb ▸ hdigit _ hlow

end JsonRpcBridge
