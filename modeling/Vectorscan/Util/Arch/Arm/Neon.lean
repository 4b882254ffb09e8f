import Mathlib.Data.BitVec

/-!
# The NEON intrinsics of `simd_utils.h`

`m128` is `int32x4_t`, and `simd_utils.h` casts it to the other 128-bit NEON types
(`uint8x16_t`, `uint16x8_t`, …).  A cast reinterprets the bits, so every vector here is
its 128 bits and a cast is the identity.  AArch64 is little-endian: lane `i` of a vector
read as lanes of `w` bits is bits `w * i … w * i + w - 1`, and byte `i` in memory order is
lane `i` of `8` bits.

The intrinsics act lane by lane, as the Arm C Language Extensions describe them; each has
one bit-level lemma, from which every fact about `simd_utils.h` is derived:

    (ofLanes w f).getLsbD b = (b < 128 && (f (b / w)).getLsbD (b % w))      (getLsbD_ofLanes)
    lanes 2j and 2j+1 share no bit →
      (vpaddlq w x).getLsbD b = (b < 128 && b % 2w < w && (bit of lane 2j || of lane 2j+1))
                                                                           (getLsbD_vpaddlq)
    j < 16 → byte (vextq a b n) j = byte j + n of a followed by b         (byte_vextq)
-/

namespace Arm

/-- A 128-bit NEON register, whatever its lane type; `m128`. -/
abbrev M128 := BitVec 128

/-- The bitvector of width `w` whose bit `b` is `f b`. -/
def ofBits : (w : Nat) → (Nat → Bool) → BitVec w
  | 0, _ => 0#0
  | w + 1, f => BitVec.cons (f w) (ofBits w f)

/-- Lane `i` of `x` read as lanes of `w` bits. -/
def lane (w : Nat) (x : M128) (i : Nat) : BitVec w := x.extractLsb' (w * i) w

/-- Byte `i` of `x` in memory order. -/
def byte (x : M128) (i : Nat) : BitVec 8 := lane 8 x i

/-- The vector whose lanes of `w` bits are `f 0, f 1, …`. -/
def ofLanes (w : Nat) (f : Nat → BitVec w) : M128 := ofBits 128 fun b => (f (b / w)).getLsbD (b % w)

/-- A `uint8x16_t` initialiser `{b0, b1, …, b15}`. -/
def ofBytes (bs : List (BitVec 8)) : M128 := ofLanes 8 fun i => bs.getD i 0

/-- `vandq_u8(a, b)`. -/
def vandqU8 (a b : M128) : M128 := a &&& b

/-- `vorrq_u8(a, b)`. -/
def vorrqU8 (a b : M128) : M128 := a ||| b

/-- `vceqq_u8(a, b)`: each byte all ones where the bytes of `a` and `b` are equal, else zero. -/
def vceqqU8 (a b : M128) : M128 :=
  ofLanes 8 fun i => if lane 8 a i = lane 8 b i then BitVec.allOnes 8 else 0

/-- `vpaddlq_uW`: lanes `2j` and `2j+1` of `w` bits added into lane `j` of `2w` bits, each
widened first, so no sum is truncated. -/
def vpaddlq (w : Nat) (x : M128) : M128 :=
  ofLanes (2 * w) fun j => (lane w x (2 * j)).setWidth (2 * w) + (lane w x (2 * j + 1)).setWidth (2 * w)

/-- `vpaddlq_u8`. -/
def vpaddlqU8 (x : M128) : M128 := vpaddlq 8 x

/-- `vpaddlq_u16`. -/
def vpaddlqU16 (x : M128) : M128 := vpaddlq 16 x

/-- `vpaddlq_u32`. -/
def vpaddlqU32 (x : M128) : M128 := vpaddlq 32 x

/-- `vextq_*8(a, b, n)`: bytes `n … 15` of `a`, then bytes `0 … n-1` of `b`, that is bytes
`n … n+15` of `a` followed by `b`. -/
def vextq (a b : M128) (n : Nat) : M128 := (b ++ a).extractLsb' (8 * n) 128

/-- `vextq_u8`. -/
def vextqU8 (a b : M128) (n : Nat) : M128 := vextq a b n

/-- `vextq_s8`. -/
def vextqS8 (a b : M128) (n : Nat) : M128 := vextq a b n

/-- `vst1q_lane_u16(p, v, i)`: the 16-bit lane `i` of `v`, as stored to `*p`. -/
def vst1qLaneU16 (v : M128) (i : Nat) : BitVec 16 := lane 16 v i

/-- `vdupq_n_*`: every lane of `w` bits is `c`. -/
def vdupq (w : Nat) (c : BitVec w) : M128 := ofLanes w fun _ => c

/-- `vdupq_n_s8`. -/
def vdupqNS8 (c : BitVec 8) : M128 := vdupq 8 c

/-- `vdupq_n_u8`. -/
def vdupqNU8 (c : BitVec 8) : M128 := vdupq 8 c

/-- `vdupq_n_s32`. -/
def vdupqNS32 (c : BitVec 32) : M128 := vdupq 32 c

/-- `vdupq_n_u32`. -/
def vdupqNU32 (c : BitVec 32) : M128 := vdupq 32 c

/-- `vdupq_n_u64`. -/
def vdupqNU64 (c : BitVec 64) : M128 := vdupq 64 c

/-- `vmvnq_s32(a)`. -/
def vmvnqS32 (a : M128) : M128 := ~~~a

/-- `vmvnq_u32(a)`. -/
def vmvnqU32 (a : M128) : M128 := ~~~a

/-- `vmvnq_s8(a)`. -/
def vmvnqS8 (a : M128) : M128 := ~~~a

/-- `vandq_s8(a, b)`. -/
def vandqS8 (a b : M128) : M128 := a &&& b

/-- `vandq_u32(a, b)`. -/
def vandqU32 (a b : M128) : M128 := a &&& b

/-- `vandq_u64(a, b)`. -/
def vandqU64 (a b : M128) : M128 := a &&& b

/-- `vorrq_s8(a, b)`. -/
def vorrqS8 (a b : M128) : M128 := a ||| b

/-- `veorq_s8(a, b)`. -/
def veorqS8 (a b : M128) : M128 := a ^^^ b

/-- `vceqq_*(a, b)` on lanes of `w` bits: all ones where the lanes are equal, else zero. -/
def vceqq (w : Nat) (a b : M128) : M128 :=
  ofLanes w fun i => if lane w a i = lane w b i then BitVec.allOnes w else 0

/-- `vceqq_s32`. -/
def vceqqS32 (a b : M128) : M128 := vceqq 32 a b

/-- `vceqq_u32`. -/
def vceqqU32 (a b : M128) : M128 := vceqq 32 a b

/-- `vceqq_u64`. -/
def vceqqU64 (a b : M128) : M128 := vceqq 64 a b

/-- `vshrn_n_u16(a, n)`: each 16-bit lane shifted right by `n` and narrowed to its low
byte, into a 64-bit `uint8x8_t`. -/
def vshrnNU16 (a : M128) (n : Nat) : BitVec 64 :=
  ofBits 64 fun b => ((lane 16 a (b / 8)) >>> n).getLsbD (b % 8)

/-- `vget_lane_u64(v, i)` of a `uint64x1_t`. -/
def vgetLaneU64 (v : BitVec 64) (i : Nat) : BitVec 64 := v.extractLsb' (64 * i) 64

/-- `vaddvq_u32(v)`: the sum of the four lanes, modulo `2^32`. -/
def vaddvqU32 (v : M128) : BitVec 32 := lane 32 v 0 + lane 32 v 1 + lane 32 v 2 + lane 32 v 3

/-- `vaddvq_u64(v)`: the sum of the two lanes, modulo `2^64`. -/
def vaddvqU64 (v : M128) : BitVec 64 := lane 64 v 0 + lane 64 v 1

/-- `vshlq_n_*(a, n)` on lanes of `w` bits. -/
def vshlqN (w : Nat) (a : M128) (n : Nat) : M128 := ofLanes w fun i => lane w a i <<< n

/-- `vshrq_n_*(a, n)` on lanes of `w` bits, unsigned. -/
def vshrqN (w : Nat) (a : M128) (n : Nat) : M128 := ofLanes w fun i => lane w a i >>> n

/-- `vshlq_n_u32`. -/
def vshlqNU32 (a : M128) (n : Nat) : M128 := vshlqN 32 a n

/-- `vshrq_n_u32`. -/
def vshrqNU32 (a : M128) (n : Nat) : M128 := vshrqN 32 a n

/-- `vshlq_n_u64`. -/
def vshlqNU64 (a : M128) (n : Nat) : M128 := vshlqN 64 a n

/-- `vshrq_n_u64`. -/
def vshrqNU64 (a : M128) (n : Nat) : M128 := vshrqN 64 a n

/-- `vgetq_lane_u32(v, i)`. -/
def vgetqLaneU32 (v : M128) (i : Nat) : BitVec 32 := lane 32 v i

/-- `vgetq_lane_u64(v, i)`. -/
def vgetqLaneU64 (v : M128) (i : Nat) : BitVec 64 := lane 64 v i

/-- `vsetq_lane_u64(x, v, i)`: `v` with its 64-bit lane `i` replaced by `x`. -/
def vsetqLaneU64 (x : BitVec 64) (v : M128) (i : Nat) : M128 :=
  ofLanes 64 fun j => if j = i then x else lane 64 v j

/-- `vcombine_u64(lo, hi)`. -/
def vcombineU64 (lo hi : BitVec 64) : M128 := hi ++ lo

/-- `vget_low_u64(v)`. -/
def vgetLowU64 (v : M128) : BitVec 64 := lane 64 v 0

/-- `vget_high_u64(v)`. -/
def vgetHighU64 (v : M128) : BitVec 64 := lane 64 v 1

/-- `vdup_n_u64(c)`: a `uint64x1_t`. -/
def vdupNU64 (c : BitVec 64) : BitVec 64 := c

/-- `vaddq_u64(a, b)`. -/
def vaddqU64 (a b : M128) : M128 := ofLanes 64 fun i => lane 64 a i + lane 64 b i

/-- `vsubq_u64(a, b)`. -/
def vsubqU64 (a b : M128) : M128 := ofLanes 64 fun i => lane 64 a i - lane 64 b i

/-- `vmaxq_u8(a, b)`. -/
def vmaxqU8 (a b : M128) : M128 :=
  ofLanes 8 fun i => if (lane 8 a i).toNat ≤ (lane 8 b i).toNat then lane 8 b i else lane 8 a i

/-- `vminq_u8(a, b)`. -/
def vminqU8 (a b : M128) : M128 :=
  ofLanes 8 fun i => if (lane 8 a i).toNat ≤ (lane 8 b i).toNat then lane 8 a i else lane 8 b i

/-- `vqaddq_u8(a, b)`: lane-wise addition saturating at `0xFF`. -/
def vqaddqU8 (a b : M128) : M128 :=
  ofLanes 8 fun i =>
    if (lane 8 a i).toNat + (lane 8 b i).toNat < 256 then lane 8 a i + lane 8 b i
    else BitVec.allOnes 8

/-- `vsubq_u8(a, b)`: lane-wise subtraction modulo `2^8`. -/
def vsubqU8 (a b : M128) : M128 := ofLanes 8 fun i => lane 8 a i - lane 8 b i

/-- `vqtbl1q_s8(t, idx)`: byte `j` is byte `idx[j]` of `t`, or zero where `idx[j] ≥ 16`. -/
def vqtbl1qS8 (t idx : M128) : M128 :=
  ofLanes 8 fun j => if (lane 8 idx j).toNat < 16 then lane 8 t (lane 8 idx j).toNat else 0

/-- `vld1q_u32(ptr)` from an array of `uint32_t`. -/
def vld1qU32 (ptr : List (BitVec 32)) : M128 := ofLanes 32 fun i => ptr.getD i 0

/-- `vld1q_u64(ptr)` from an array of `uint64_t`. -/
def vld1qU64 (ptr : List (BitVec 64)) : M128 := ofLanes 64 fun i => ptr.getD i 0

/-- Byte-addressed memory. -/
abbrev Mem := Nat → BitVec 8

/-- `vld1q_s32(ptr)` from memory: byte `i` of the register is the byte at `ptr + i`. -/
def vld1qS32 (mem : Mem) (ptr : Nat) : M128 := ofLanes 8 fun i => mem (ptr + i)

/-- `vst1q_s32(ptr, a)`: the 16 bytes of `a` written at `ptr … ptr + 15`. -/
def vst1qS32 (mem : Mem) (ptr : Nat) (a : M128) : Mem :=
  fun q => if ptr ≤ q ∧ q < ptr + 16 then byte a (q - ptr) else mem q

/-! ## Lemmas -/

theorem getLsbD_ofBits (w : Nat) (f : Nat → Bool) (b : Nat) :
    (ofBits w f).getLsbD b = (decide (b < w) && f b) := by
  induction w with
  | zero => simp [ofBits]
  | succ w ih =>
      rw [ofBits, BitVec.getLsbD_cons, ih]
      by_cases h : b = w
      · simp [h]
      · simp only [h, if_false]
        congr 1
        exact decide_eq_decide.2 (by omega)

@[simp] theorem getLsbD_lane (w : Nat) (x : M128) (i k : Nat) :
    (lane w x i).getLsbD k = (decide (k < w) && x.getLsbD (w * i + k)) :=
  BitVec.getLsbD_extractLsb' _ _ _ _

@[simp] theorem getLsbD_byte (x : M128) (i k : Nat) :
    (byte x i).getLsbD k = (decide (k < 8) && x.getLsbD (8 * i + k)) :=
  getLsbD_lane _ _ _ _

@[simp] theorem getLsbD_ofLanes (w : Nat) (f : Nat → BitVec w) (b : Nat) :
    (ofLanes w f).getLsbD b = (decide (b < 128) && (f (b / w)).getLsbD (b % w)) :=
  getLsbD_ofBits _ _ _

theorem lane_ofLanes {w i : Nat} (f : Nat → BitVec w) (hi : w * i + w ≤ 128) :
    lane w (ofLanes w f) i = f i := by
  ext ⟨k, hk⟩
  rw [getLsbD_lane, getLsbD_ofLanes, Nat.mul_add_div (by omega : 0 < w), Nat.mul_add_mod,
    Nat.div_eq_of_lt hk, Nat.mod_eq_of_lt hk, Nat.add_zero]
  simp [hk, show w * i + k < 128 by omega]

/-- Widening pairwise addition is carry-free where the two lanes share no bit. -/
theorem getLsbD_vpaddlq {w : Nat} {x : M128}
    (hd : ∀ j, lane w x (2 * j) &&& lane w x (2 * j + 1) = 0) (b : Nat) :
    (vpaddlq w x).getLsbD b =
      (decide (b < 128) && decide (b % (2 * w) < w) &&
        (x.getLsbD (w * (2 * (b / (2 * w))) + b % (2 * w)) ||
          x.getLsbD (w * (2 * (b / (2 * w)) + 1) + b % (2 * w)))) := by
  have hd' : ∀ j, (lane w x (2 * j)).setWidth (2 * w) &&& (lane w x (2 * j + 1)).setWidth (2 * w) = 0 :=
    fun j => by rw [← BitVec.setWidth_and, hd]; simp
  rw [vpaddlq, getLsbD_ofLanes, BitVec.add_eq_or_of_and_eq_zero _ _ (hd' _)]
  simp only [BitVec.getLsbD_or, BitVec.getLsbD_setWidth, getLsbD_lane]
  by_cases h : b % (2 * w) < w
  · simp [h, Nat.mod_lt b (show 0 < 2 * w by omega)]
  · simp [h]

theorem getLsbD_vextq (a b : M128) (n i : Nat) :
    (vextq a b n).getLsbD i =
      (decide (i < 128) &&
        if 8 * n + i < 128 then a.getLsbD (8 * n + i) else b.getLsbD (8 * n + i - 128)) := by
  rw [vextq, BitVec.getLsbD_extractLsb', BitVec.getLsbD_append]
  by_cases h : 8 * n + i < 128 <;> simp [h]

/-- Byte `j` of `vextq a b n` is byte `j + n` of `a` followed by `b`. -/
theorem byte_vextq {a b : M128} {n j : Nat} (hj : j < 16) :
    byte (vextq a b n) j = if j + n < 16 then byte a (j + n) else byte b (j + n - 16) := by
  ext ⟨k, hk⟩
  rw [getLsbD_byte, getLsbD_vextq]
  by_cases h : j + n < 16
  · simp only [h, if_true, getLsbD_byte, hk, decide_True, Bool.true_and]
    rw [if_pos (by omega), show 8 * n + (8 * j + k) = 8 * (j + n) + k by omega]
    simp [show 8 * j + k < 128 by omega]
  · simp only [h, if_false, getLsbD_byte, hk, decide_True, Bool.true_and]
    rw [if_neg (by omega), show 8 * n + (8 * j + k) - 128 = 8 * (j + n - 16) + k by omega]
    simp [show 8 * j + k < 128 by omega]

@[simp] theorem byte_zero (j : Nat) : byte 0 j = 0 := by
  ext k
  simp

/-- Vectors with the same 16 bytes are equal. -/
theorem ext_byte {x y : M128} (h : ∀ j < 16, byte x j = byte y j) : x = y := by
  ext ⟨i, hi⟩
  have := congrArg (BitVec.getLsbD · (i % 8)) (h (i / 8) (by omega))
  simp only [getLsbD_byte, Nat.mod_lt i (by omega : 0 < 8), decide_True, Bool.true_and] at this
  rwa [Nat.div_add_mod] at this

/-- Vectors with the same lanes of `w` bits are equal. -/
theorem ext_lane {w : Nat} (hw : 0 < w) {x y : M128}
    (h : ∀ i, w * i < 128 → lane w x i = lane w y i) : x = y := by
  ext ⟨k, hk⟩
  have := congrArg (BitVec.getLsbD · (k % w)) (h (k / w) (by have := Nat.mul_div_le k w; omega))
  simp only [getLsbD_lane, Nat.mod_lt k hw, decide_True, Bool.true_and] at this
  rwa [Nat.div_add_mod] at this

theorem ofLanes_congr {w : Nat} (hw : 0 < w) {f g : Nat → BitVec w}
    (h : ∀ i, w * i < 128 → f i = g i) : ofLanes w f = ofLanes w g :=
  ext_lane hw fun i hi => by
    ext ⟨k, hk⟩
    rw [getLsbD_lane, getLsbD_lane, getLsbD_ofLanes, getLsbD_ofLanes, Nat.mul_add_div hw,
      Nat.div_eq_of_lt hk, Nat.add_zero, Nat.mul_add_mod, Nat.mod_eq_of_lt hk, h i hi]

/-- Reading a vector's lanes and writing them back gives the vector. -/
theorem ofLanes_lane {w : Nat} (hw : 0 < w) (a : M128) : ofLanes w (lane w a) = a := by
  ext ⟨k, hk⟩
  simp [hk, Nat.mod_lt k hw, Nat.div_add_mod]

@[simp] theorem ofLanes_zero (w : Nat) : ofLanes w (fun _ => 0) = 0 := by
  ext k
  simp

theorem lane_and (w : Nat) (a b : M128) (i : Nat) : lane w (a &&& b) i = lane w a i &&& lane w b i := by
  ext k
  simp only [getLsbD_lane, BitVec.getLsbD_and]
  cases decide (k.1 < w) <;> rfl

theorem lane_or (w : Nat) (a b : M128) (i : Nat) : lane w (a ||| b) i = lane w a i ||| lane w b i := by
  ext k
  simp only [getLsbD_lane, BitVec.getLsbD_or]
  cases decide (k.1 < w) <;> rfl

theorem lane_not {w i : Nat} (a : M128) (hi : w * i + w ≤ 128) : lane w (~~~a) i = ~~~lane w a i := by
  ext ⟨k, hk⟩
  simp [hk, show w * i + k < 128 by omega]

theorem lane_vdupq {w i : Nat} (c : BitVec w) (hi : w * i + w ≤ 128) : lane w (vdupq w c) i = c :=
  lane_ofLanes _ hi

theorem lane_vceqq {w i : Nat} (a b : M128) (hi : w * i + w ≤ 128) :
    lane w (vceqq w a b) i = if lane w a i = lane w b i then BitVec.allOnes w else 0 :=
  lane_ofLanes _ hi

theorem shiftLeft_of_le {w n : Nat} (x : BitVec w) (h : w ≤ n) : x <<< n = 0 := by
  ext ⟨k, hk⟩
  simp [hk, show k < n by omega]

theorem ushiftRight_of_le {w n : Nat} (x : BitVec w) (h : w ≤ n) : x >>> n = 0 := by
  ext ⟨k, hk⟩
  simp [BitVec.getLsbD_ge x (n + k) (by omega)]

theorem vshlqN_zero {w : Nat} (hw : 0 < w) (a : M128) : vshlqN w a 0 = a := by
  simp only [vshlqN, BitVec.shiftLeft_zero]
  exact ofLanes_lane hw a

theorem vshrqN_zero {w : Nat} (hw : 0 < w) (a : M128) : vshrqN w a 0 = a := by
  simp only [vshrqN, BitVec.ushiftRight_zero]
  exact ofLanes_lane hw a

/-- A lane shift by the lane width or more clears every lane. -/
theorem vshlqN_of_le {w n : Nat} (a : M128) (h : w ≤ n) : vshlqN w a n = 0 := by
  simp only [vshlqN, shiftLeft_of_le _ h, ofLanes_zero]

theorem vshrqN_of_le {w n : Nat} (a : M128) (h : w ≤ n) : vshrqN w a n = 0 := by
  simp only [vshrqN, ushiftRight_of_le _ h, ofLanes_zero]

theorem byte_vld1qS32 (mem : Mem) (ptr : Nat) {j : Nat} (hj : j < 16) :
    byte (vld1qS32 mem ptr) j = mem (ptr + j) :=
  lane_ofLanes _ (by omega)

end Arm
