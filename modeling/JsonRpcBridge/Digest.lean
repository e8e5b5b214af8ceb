import JsonRpcBridge.Fips180
import JsonRpcBridge.Sha256
import Mathlib.Tactic.IntervalCases

/-!
# The hash object computes SHA-256

* `hash_compress`: `compress` is the compression function of the standard.
* `Holds`: what the object holds of the message between two bytes.
* `digest_of_pieces`: `finish` returns the digest of all that was passed to `update`.
-/

namespace JsonRpcBridge.Sha256

open Fips180 (Hash)

/-! ## Words

`UInt32` of the code and `BitVec 32` of the standard compute alike. -/

theorem toBitVec_rotr {x n : UInt32} (hpos : 0 < n) (hn : n < 32) :
    (rotr x n).toBitVec = x.toBitVec.rotateRight n.toNat := by
  have hpos' : 0 < n.toNat := hpos
  have hn' : n.toNat < 32 := hn
  have hright : (n.toBitVec % 32).toNat = n.toNat := Nat.mod_eq_of_lt hn'
  have hleft : ((32 - n).toBitVec % 32).toNat = 32 - n.toNat := by
    show (32 - n).toNat % 32 = _
    rw [UInt32.toNat_sub_of_le _ _ (UInt32.le_of_lt hn)]
    show (32 - n.toNat) % 32 = _
    omega
  rw [rotr, UInt32.toBitVec_or, UInt32.toBitVec_shiftRight, UInt32.toBitVec_shiftLeft,
    BitVec.ushiftRight_eq', BitVec.shiftLeft_eq', hright, hleft, BitVec.rotateRight_def,
    Nat.mod_eq_of_lt hn']

theorem toBitVec_join (a b c d : UInt8) :
    ((a.toUInt32 <<< 24) ||| (b.toUInt32 <<< 16) ||| (c.toUInt32 <<< 8) ||| d.toUInt32).toBitVec =
      Fips180.word a b c d := by
  rw [Fips180.word]
  -- bit by bit: each position of a word falls into one of the four bytes
  ext i hi
  simp
  grind

theorem toBitVec_word (block : Vector UInt8 64) (i : Fin 16) :
    (word block i).toBitVec = Fips180.blockWord block.toList i := by
  have hget : ∀ (j : Nat) (hj : j < 64), block.toList.getD j 0 = block[j] := by
    intro j hj
    rw [List.getD_eq_getElem?_getD, List.getElem?_eq_getElem (by rwa [Vector.length_toList]),
      Vector.getElem_toList, Option.getD_some]
  rw [Fips180.blockWord, hget _ (by omega), hget _ (by omega), hget _ (by omega),
    hget _ (by omega), word, toBitVec_join]
  simp only [Nat.mul_comm]

/-! ## Schedule

The code keeps a whole array of words, the standard gives each word by those before it. -/

/-- `W_{t-1}, …, W_0`. -/
def newestFirst (block : List UInt8) (t : Nat) : List Fips180.Word :=
  ((List.range t).map (Fips180.schedule block)).reverse

theorem newestFirst_succ (block : List UInt8) (t : Nat) :
    newestFirst block (t + 1) = Fips180.schedule block t :: newestFirst block t := by
  rw [newestFirst, List.range_succ, List.map_append, List.reverse_append]
  rfl

theorem newestFirst_getD {block : List UInt8} {t j : Nat} (hj : j < t) :
    (newestFirst block t).getD j 0 = Fips180.schedule block (t - 1 - j) := by
  rw [newestFirst, List.getD_eq_getElem?_getD, List.getElem?_reverse (by simpa using hj)]
  rw [List.length_map, List.length_range, List.getElem?_map, List.getElem?_range (by omega)]
  rfl

theorem extend_newestFirst {block : List UInt8} (n t : Nat) (w : List UInt32) (ht : 16 ≤ t)
    (hw : w.map UInt32.toBitVec = newestFirst block t) :
    (extend n w).map UInt32.toBitVec = newestFirst block (t + n) := by
  induction n generalizing t w with
  | zero => exact hw
  | succ n ih =>
    have hget : ∀ j, j < t → (w.getD j 0).toBitVec = Fips180.schedule block (t - 1 - j) := by
      intro j hj
      rw [← newestFirst_getD hj, ← hw, List.getD_eq_getElem?_getD, List.getD_eq_getElem?_getD,
        List.getElem?_map]
      cases w[j]? with
      | none => rfl
      | some x => rfl
    rw [extend, show t + (n + 1) = t + 1 + n by omega]
    apply ih (t + 1) _ (by omega)
    rw [List.map_cons, hw, newestFirst_succ]
    congr 1
    rw [Fips180.schedule, if_neg (by omega), Fips180.sigma1, Fips180.sigma0]
    simp only [UInt32.toBitVec_add, UInt32.toBitVec_xor, UInt32.toBitVec_shiftRight]
    rw [toBitVec_rotr (by decide) (by decide), toBitVec_rotr (by decide) (by decide),
      toBitVec_rotr (by decide) (by decide), toBitVec_rotr (by decide) (by decide),
      hget 15 (by omega), hget 14 (by omega), hget 6 (by omega), hget 1 (by omega)]
    simp only [Nat.sub_sub, Nat.reduceAdd, UInt32.reduceToNat, BitVec.ushiftRight_eq']
    -- the code adds the same four words in another order
    show Fips180.schedule block (t - 16) + _ + Fips180.schedule block (t - 7) + _ = _
    ac_rfl

theorem schedule_toBitVec (block : Vector UInt8 64) :
    (schedule block).map UInt32.toBitVec =
      (List.range 64).map (Fips180.schedule block.toList) := by
  have hfirst : (((List.finRange 16).map (word block)).reverse).map UInt32.toBitVec =
      newestFirst block.toList 16 := by
    rw [newestFirst, List.map_reverse, List.map_map, ← List.map_coe_finRange_eq_range,
      List.map_map]
    congr 1
    apply List.map_congr_left
    intro i hi
    show (word block i).toBitVec = Fips180.schedule block.toList i
    rw [toBitVec_word, Fips180.schedule, if_pos i.isLt]
  rw [schedule, List.map_reverse, extend_newestFirst 48 16 _ (le_refl 16) hfirst, newestFirst,
    List.reverse_reverse]

/-! ## Compression

One round is one round, and sixty-four of them a block. -/

def Working.hash (v : Working) : Hash where
  a := v.a.toBitVec
  b := v.b.toBitVec
  c := v.c.toBitVec
  d := v.d.toBitVec
  e := v.e.toBitVec
  f := v.f.toBitVec
  g := v.g.toBitVec
  h := v.h.toBitVec

/-- The chaining value as eight words. -/
def working (s : Sha256) : Working :=
  ⟨s.state.get 0, s.state.get 1, s.state.get 2, s.state.get 3, s.state.get 4, s.state.get 5,
    s.state.get 6, s.state.get 7⟩

def hash (s : Sha256) : Hash := s.working.hash

/-! ### One block

The constants and the start value are those of the standard, and a round of the code is a round
of the standard under `hash`. -/

theorem k_constants : k.map UInt32.toBitVec = Fips180.constants := by
  rw [Fips180.constants, Fips180.primes_eq]
  decide +kernel

theorem hash_default : hash {} = Fips180.initial := by decide +kernel

theorem hash_round (v : Working) (kw : UInt32 × UInt32) :
    (round v kw).hash = Fips180.round v.hash kw.1.toBitVec kw.2.toBitVec := by
  simp (disch := decide) only [round, Working.hash, Fips180.round, Fips180.bigSigma0,
    Fips180.bigSigma1, Fips180.ch, Fips180.maj, UInt32.toBitVec_add, UInt32.toBitVec_xor,
    UInt32.toBitVec_and, UInt32.toBitVec_not, toBitVec_rotr, UInt32.reduceToNat]

theorem hash_foldl_round (kws : List (UInt32 × UInt32)) (v : Working) :
    (kws.foldl round v).hash =
      (kws.map (Prod.map UInt32.toBitVec UInt32.toBitVec)).foldl
        (fun v kw => Fips180.round v kw.1 kw.2) v.hash := by
  induction kws generalizing v with
  | nil => rfl
  | cons kw kws ih =>
    rw [List.foldl_cons, ih, hash_round]
    rfl

theorem zip_schedule (block : Vector UInt8 64) :
    (k.zip (schedule block)).map (Prod.map UInt32.toBitVec UInt32.toBitVec) =
      (Fips180.constants.zipIdx).map (Prod.map id (Fips180.schedule block.toList)) := by
  rw [List.zipIdx_eq_zip_range', ← List.zip_map, ← List.zip_map, k_constants, schedule_toBitVec,
    List.map_id, ← List.range_eq_range', Fips180.constants_length]

theorem hash_compress (s : Sha256) :
    s.compress.hash = Fips180.compress s.hash s.block.toList := by
  show s.hash.add (((k.zip (schedule s.block)).foldl round s.working).hash) = _
  rw [hash_foldl_round, zip_schedule, List.foldl_map, Fips180.compress]
  rfl

/-! ## Buffering

What came in is the blocks that were compressed and the bytes in the buffer. -/

/-- `done` is compressed, `rest` waits in the block. -/
structure Holds (bits : UInt64) (s : Sha256) (done rest : Bytes) : Prop where
  bits : s.bits = bits
  whole : done.length % 64 = 0
  hash : s.hash = Fips180.chain done
  used : s.used = rest.length
  fits : rest.length ≤ 64
  block : s.block.toList.take rest.length = rest

variable {bits : UInt64} {s : Sha256} {done rest : Bytes}

theorem Holds.push (h : Holds bits s done rest) (b : UInt8) (hroom : rest.length < 64) :
    Holds bits (s.push b) done (rest ++ [b]) where
  bits := h.bits
  whole := h.whole
  hash := h.hash
  used := by
    rw [List.length_append]
    exact congrArg (· + 1) h.used
  fits := by
    rw [List.length_append]
    exact hroom
  block := by
    rw [Sha256.push, h.used, List.length_append, Vector.set!_eq_setIfInBounds,
      Vector.toList_setIfInBounds, List.length_singleton, List.take_add_one,
      List.take_set_of_le (Nat.le_refl _), h.block, List.getElem?_set_self]
    · rfl
    · rwa [Vector.length_toList]

theorem Holds.feed (h : Holds bits s done rest) (bs : Bytes)
    (hroom : rest.length + bs.length ≤ 64) :
    Holds bits (bs.foldl Sha256.push s) done (rest ++ bs) := by
  induction bs generalizing s rest with
  | nil => rwa [List.append_nil]
  | cons b bs ih =>
    rw [List.length_cons] at hroom
    rw [List.append_cons]
    apply ih (h.push b (by omega))
    rw [List.length_append, List.length_singleton]
    omega

theorem Holds.hash_full (h : Holds bits s done rest) (hfull : rest.length = 64) :
    s.compress.hash = Fips180.chain (done ++ rest) := by
  have hblock : s.block.toList = rest := by
    rw [← h.block, hfull, List.take_of_length_le (by rw [Vector.length_toList])]
  rw [hash_compress, h.hash, hblock, Fips180.chain_append h.whole hfull]

/-- A full block. -/
theorem Holds.flush (h : Holds bits s done rest) (hfull : rest.length = 64) :
    Holds bits { s.compress with used := 0 } (done ++ rest) [] where
  bits := h.bits
  whole := by
    rw [List.length_append, hfull, Nat.add_mod_right]
    exact h.whole
  hash := h.hash_full hfull
  used := rfl
  fits := Nat.zero_le _
  block := rfl

/-! ### Many bytes at once

`update` fills the block, compresses and goes on. The loop keeps `Holds`, with the split point
moving from block to block. -/

theorem Holds.updateLoop (n : Nat) (data : Bytes) (h : Holds bits s done rest)
    (hroom : rest.length < 64) (hn : data.length ≤ n) :
    ∃ done' rest', done ++ rest ++ data = done' ++ rest' ∧ rest'.length < 64 ∧
      Holds bits (s.updateLoop n data) done' rest' := by
  induction n generalizing s done rest data with
  | zero =>
    have hnil : data = [] := List.eq_nil_of_length_eq_zero (Nat.le_zero.mp hn)
    exact ⟨done, rest, by rw [hnil, List.append_nil], hroom, h⟩
  | succ n ih =>
    rw [Sha256.updateLoop]
    cases data with
    | nil => exact ⟨done, rest, by rw [List.append_nil], hroom, h⟩
    | cons b data =>
      rw [List.isEmpty_cons, if_neg Bool.false_ne_true, h.used]
      dsimp only
      set piece := (b :: data).take (min (b :: data).length (64 - rest.length)) with hpiece
      set left := (b :: data).drop (min (b :: data).length (64 - rest.length)) with hleft
      have hsplit : b :: data = piece ++ left := (List.take_append_drop _ _).symm
      have hlength : piece.length = min (b :: data).length (64 - rest.length) := by
        rw [hpiece, List.length_take]
        omega
      have hpos : 0 < (b :: data).length := Nat.succ_pos _
      have hshorter : left.length ≤ n := by
        rw [hleft, List.length_drop]
        omega
      have hfed := h.feed piece (by omega)
      rw [hsplit]
      -- the piece fills the block, or it was all there was
      by_cases hfull : (rest ++ piece).length = 64
      · rw [if_pos (by rw [hfed.used, hfull]; rfl)]
        obtain ⟨done', rest', heq, hrest', hholds⟩ :=
          ih left (hfed.flush hfull) (Nat.zero_lt_succ _) hshorter
        refine ⟨done', rest', ?_, hrest', hholds⟩
        rw [← heq]
        simp only [List.append_assoc, List.append_nil]
      · rw [if_neg (by rw [hfed.used, beq_iff_eq]; exact hfull)]
        obtain ⟨done', rest', heq, hrest', hholds⟩ :=
          ih left hfed (Nat.lt_of_le_of_ne hfed.fits hfull) hshorter
        refine ⟨done', rest', ?_, hrest', hholds⟩
        rw [← heq]
        simp only [List.append_assoc]

/-- All of `m` has been taken in, and less than a block of it waits. -/
def Absorbed (s : Sha256) (m : Bytes) : Prop :=
  ∃ done rest, m = done ++ rest ∧ rest.length < 64 ∧
    Holds (UInt64.ofNat (8 * m.length)) s done rest

theorem absorbed_fresh (block : Vector UInt8 64) : Absorbed { block } [] :=
  ⟨[], [], rfl, Nat.zero_lt_succ _, rfl, rfl, hash_default, rfl, Nat.zero_le _, rfl⟩

theorem Absorbed.update {m : Bytes} (h : Absorbed s m) (data : Bytes) :
    Absorbed (s.update data) (m ++ data) := by
  obtain ⟨done, rest, rfl, hroom, hholds⟩ := h
  have hlength : (done ++ rest ++ data).length = (done ++ rest).length + data.length :=
    List.length_append
  have hbits : s.bits + UInt64.ofNat data.length * 8 =
      UInt64.ofNat (8 * (done ++ rest ++ data).length) := by
    rw [hholds.bits, hlength, Nat.mul_add, UInt64.ofNat_add, Nat.mul_comm 8 data.length]
    exact congrArg _ (UInt64.ofNat_mul data.length 8).symm
  have hcounted : Holds (UInt64.ofNat (8 * (done ++ rest ++ data).length))
      { s with bits := s.bits + UInt64.ofNat data.length * 8 } done rest :=
    { hholds with bits := hbits }
  obtain ⟨done', rest', heq, hrest', hholds'⟩ :=
    hcounted.updateLoop data.length data hroom (Nat.le_refl _)
  exact ⟨done', rest', heq, hrest', hholds'⟩

theorem absorbed_updates (pieces : List Bytes) {m : Bytes} (h : Absorbed s m) :
    Absorbed (pieces.foldl update s) (m ++ pieces.flatten) := by
  induction pieces generalizing s m with
  | nil =>
    rw [List.flatten_nil, List.append_nil]
    exact h
  | cons data pieces ih =>
    rw [List.flatten_cons, ← List.append_assoc]
    exact ih (h.update data)

/-! ## Padding

`finish` writes the padding through `update`, which may fill a block on the way. -/

theorem Holds.padTo (h : Holds bits s done rest) {n : Nat} (hn : n ≤ 64)
    (hrest : rest.length ≤ n) :
    Holds bits (s.padTo n) done (rest ++ List.replicate (n - rest.length) 0) := by
  rw [Sha256.padTo, h.used]
  apply h.feed
  rw [List.length_replicate]
  omega

/-- The end of the message: a block more where the length does not fit the one at hand. -/
theorem Holds.delimit (h : Holds bits s done rest) (hroom : rest.length < 64) :
    ∃ done' rest', rest'.length ≤ 56 ∧
      done' ++ (rest' ++ List.replicate (56 - rest'.length) 0) =
        done ++ rest ++ 0x80 :: List.replicate (Fips180.zeros (done ++ rest).length) 0 ∧
      Holds bits
        (if (s.push 0x80).used > 56 then { ((s.push 0x80).padTo 64).compress with used := 0 }
          else s.push 0x80) done' rest' := by
  have hpushed := h.push 0x80 hroom
  have hlength : (rest ++ [0x80]).length = rest.length + 1 := List.length_append
  have hwhole := h.whole
  have hzeros : Fips180.zeros (done ++ rest).length =
      if rest.length + 1 > 56 then 64 - (rest.length + 1) + 56 else 56 - (rest.length + 1) := by
    rw [Fips180.zeros, List.length_append]
    split <;> omega
  rw [hpushed.used, hlength, hzeros]
  by_cases hlong : rest.length + 1 > 56
  · rw [if_pos hlong, if_pos hlong]
    have hpadded := hpushed.padTo (Nat.le_refl 64) (by omega)
    refine ⟨_, [], Nat.zero_le _, ?_, hpadded.flush ?_⟩
    · rw [hlength, List.replicate_add]
      simp only [List.append_assoc, List.cons_append, List.nil_append]
      rfl
    · rw [List.length_append, List.length_replicate]
      omega
  · rw [if_neg hlong, if_neg hlong]
    refine ⟨done, rest ++ [0x80], by omega, ?_, hpushed⟩
    rw [hlength]
    simp only [List.append_assoc, List.cons_append, List.nil_append]

/-! ### Numbers as bytes

The length and the chaining value are written out from the highest byte on. -/

theorem byte_of_bits {n i : Nat} (hn : n < 2 ^ 64) (hi : i < 8) :
    (UInt64.ofNat n >>> (UInt64.ofNat i * 8)).toUInt8 = UInt8.ofNat (n >>> (8 * i)) := by
  have hshift : (UInt64.ofNat i * 8).toNat % 64 = 8 * i := by
    rw [UInt64.toNat_mul, UInt64.toNat_ofNat_of_lt' (Nat.lt_trans hi (by decide))]
    show i * 8 % 2 ^ 64 % 64 = 8 * i
    omega
  apply UInt8.toNat_inj.mp
  rw [UInt64.toNat_toUInt8, UInt64.toNat_shiftRight, UInt64.toNat_ofNat_of_lt' hn, hshift,
    UInt8.toNat_ofNat']

theorem bits_bytes {n : Nat} (hn : n < 2 ^ 64) :
    ([7, 6, 5, 4, 3, 2, 1, 0] : List UInt64).map
        (fun i => (UInt64.ofNat n >>> (i * 8)).toUInt8) = Fips180.be64 n := by
  show ([7, 6, 5, 4, 3, 2, 1, 0].map UInt64.ofNat).map _ = _
  rw [List.map_map, Fips180.be64]
  apply List.map_congr_left
  intro i hi
  apply byte_of_bits hn
  simp at hi
  omega

theorem state_bytes (s : Sha256) :
    (s.state.toList.flatMap fun (w : UInt32) =>
      [(w >>> 24).toUInt8, (w >>> 16).toUInt8, (w >>> 8).toUInt8, w.toUInt8]) = s.hash.bytes := by
  have hstate : s.state.toList = [s.state[0], s.state[1], s.state[2], s.state[3], s.state[4],
      s.state[5], s.state[6], s.state[7]] := by
    apply List.ext_getElem
    · exact Vector.length_toList
    intro i hi hi'
    rw [Vector.getElem_toList]
    rw [Vector.length_toList] at hi
    interval_cases i <;> rfl
  rw [hstate]
  rfl

/-! ### The digest

The padding completes the last block, so that the chain of blocks is the one of the standard, and
the object starts afresh. -/

theorem Absorbed.finish {m : Bytes} (h : Absorbed s m) (hm : m.length < 2 ^ 61) :
    s.finish.1 = Fips180.sha256 m := by
  obtain ⟨done, rest, rfl, hroom, hholds⟩ := h
  obtain ⟨done', rest', hshort, hpad, hdelimited⟩ := hholds.delimit hroom
  have hpadded := hdelimited.padTo (n := 56) (by omega) hshort
  have hlength : (Fips180.be64 (8 * (done ++ rest).length)).length = 8 := by
    rw [Fips180.be64, List.length_map]
    rfl
  have hrest : (rest' ++ List.replicate (56 - rest'.length) 0).length = 56 := by
    rw [List.length_append, List.length_replicate]
    omega
  have hfull := hpadded.feed (Fips180.be64 (8 * (done ++ rest).length)) (by omega)
  have hlast := hfull.hash_full (by rw [List.length_append]; omega)
  have hmessage : done' ++ (rest' ++ List.replicate (56 - rest'.length) 0 ++
      Fips180.be64 (8 * (done ++ rest).length)) = Fips180.pad (done ++ rest) := by
    rw [Fips180.pad, ← List.append_assoc, hpad]
  rw [hmessage, ← bits_bytes (by omega), List.foldl_map, ← hholds.bits] at hlast
  rw [Fips180.sha256, ← hlast, ← state_bytes]
  rfl

/-- Any split of a message into pieces hashes to the digest of the whole, on a fresh object and on
one that has finished; what is left is fresh again, whatever lies in its block. -/
theorem digest_of_pieces (s : Sha256) (pieces : List Bytes)
    (hs : s = {} ∨ ∃ earlier : Sha256, s = earlier.finish.2)
    (hpieces : pieces.flatten.length < 2 ^ 61) :
    (pieces.foldl update s).finish.1 = Fips180.sha256 pieces.flatten ∧
      ∃ block, (pieces.foldl update s).finish.2 = { block } := by
  have hfresh : Absorbed s [] := by
    rcases hs with rfl | ⟨earlier, rfl⟩
    · exact absorbed_fresh _
    · exact absorbed_fresh _
  have hall := absorbed_updates pieces hfresh
  rw [List.nil_append] at hall
  exact ⟨hall.finish hpieces, _, rfl⟩

theorem digest_of_pieces_reused :
    (([[0x61, 0x62], [], [0x63]] : List Bytes).foldl update ({} : Sha256).finish.2).finish.1 =
        Fips180.sha256 [0x61, 0x62, 0x63] ∧
      ∃ block, (([[0x61, 0x62], [], [0x63]] : List Bytes).foldl update
        ({} : Sha256).finish.2).finish.2 = { block } :=
  digest_of_pieces ({} : Sha256).finish.2 [[0x61, 0x62], [], [0x63]] (Or.inr ⟨{}, rfl⟩) (by decide)

example : ((({} : Sha256).update [0x61, 0x62, 0x63]).finish).1 =
    [0xba, 0x78, 0x16, 0xbf, 0x8f, 0x01, 0xcf, 0xea, 0x41, 0x41, 0x40, 0xde,
      0x5d, 0xae, 0x22, 0x23, 0xb0, 0x03, 0x61, 0xa3, 0x96, 0x17, 0x7a, 0x9c, 0xb4,
      0x10, 0xff, 0x61, 0xf2, 0x00, 0x15, 0xad] := by
  decide +kernel

end JsonRpcBridge.Sha256
