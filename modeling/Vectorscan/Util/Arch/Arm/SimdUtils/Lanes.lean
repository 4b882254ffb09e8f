import Vectorscan.Util.Arch.Arm.SimdUtils

/-!
# `util/arch/arm/simd_utils.h`: lane access, lane shifts and `pshufb`

The bitwise operations, the lane constructors (`set1_*`, `set4x32`, `set2x64`) and
accessors (`movd`, `movq`, `extract32from128`, `extract64from128`, `low64from128`,
`high64from128`), the lane arithmetic, the four lane shifts and `pshufb_m128`.

`extract*from128` and the lane shifts switch on an `unsigned` argument, one arm per
immediate the intrinsic accepts and zero by `default`; each family is one definition here
(`extractLane`, `laneShiftSwitch`), applied to each member's intrinsic and range.

    extract32from128 (set4x32 x3 x2 x1 x0) imm = [x0, x1, x2, x3].getD imm 0,
    set4x32 (lane 3) (lane 2) (lane 1) (lane 0) = a, and the same for 64-bit lanes
                                                                   (lanes_roundTrip)
    lshift_m128 a b = each 32-bit lane of a shifted left by b, zero for b ≥ 32, and
    likewise rshift_m128, lshift64_m128, rshift64_m128               (laneShifts_spec)
    pshufb_m128 a b = the x86 pshufb of a by b                 (pshufbM128_eq_pshufbRef)
-/

namespace Arm

/-! ## Bitwise operations and constants -/

/-- `ones128()`. -/
def ones128 : M128 := vdupqNS8 0xFF

/-- `not128(a)`. -/
def not128 (a : M128) : M128 := vmvnqS32 a

/-- `and128(a, b)`. -/
def and128 (a b : M128) : M128 := vandqS8 a b

/-- `xor128(a, b)`. -/
def xor128 (a b : M128) : M128 := veorqS8 a b

/-- `or128(a, b)`. -/
def or128 (a b : M128) : M128 := vorrqS8 a b

/-- `andnot128(a, b)`: `~a & b`. -/
def andnot128 (a b : M128) : M128 := vandqS8 (vmvnqS8 a) b

/-! ## Lane constructors and accessors -/

/-- `set1_16x8(c)`. -/
def set1_16x8 (c : BitVec 8) : M128 := vdupqNU8 c

/-- `set1_4x32(c)`. -/
def set1_4x32 (c : BitVec 32) : M128 := vdupqNU32 c

/-- `set1_2x64(c)`. -/
def set1_2x64 (c : BitVec 64) : M128 := vdupqNU64 c

/-- `set4x32(x3, x2, x1, x0)`: `vld1q_u32` of the array `{x0, x1, x2, x3}`. -/
def set4x32 (x3 x2 x1 x0 : BitVec 32) : M128 := vld1qU32 [x0, x1, x2, x3]

/-- `set2x64(hi, lo)`: `vld1q_u64` of the array `{lo, hi}`. -/
def set2x64 (hi lo : BitVec 64) : M128 := vld1qU64 [lo, hi]

/-- `movd(in)`: the low 32-bit lane. -/
def movd (input : M128) : BitVec 32 := vgetqLaneU32 input 0

/-- `movq(in)`: the low 64-bit lane. -/
def movq (input : M128) : BitVec 64 := vgetqLaneU64 input 0

/-- The `switch (imm)` of `extract32from128` and `extract64from128`: lane `imm` of `in`
for each of its `lanes` lanes, zero by `default`. -/
def extractLane {w : Nat} (get : M128 → Nat → BitVec w) (lanes : Nat) (input : M128)
    (imm : BitVec 32) : BitVec w :=
  if imm.toNat < lanes then get input imm.toNat else 0

/-- `extract32from128(in, imm)`, on its path without `__builtin_constant_p`. -/
def extract32from128 (input : M128) (imm : BitVec 32) : BitVec 32 :=
  extractLane vgetqLaneU32 4 input imm

/-- `extract64from128(in, imm)`, on its path without `__builtin_constant_p`. -/
def extract64from128 (input : M128) (imm : BitVec 32) : BitVec 64 :=
  extractLane vgetqLaneU64 2 input imm

/-- `low64from128(in)`: the low 64-bit lane, the high one cleared. -/
def low64from128 (input : M128) : M128 := vcombineU64 (vgetLowU64 input) (vdupNU64 0)

/-- `high64from128(in)`: the high 64-bit lane moved down, the high one cleared. -/
def high64from128 (input : M128) : M128 := vcombineU64 (vgetHighU64 input) (vdupNU64 0)

/-! ## Lane arithmetic -/

/-- `add_2x64(a, b)`. -/
def add_2x64 (a b : M128) : M128 := vaddqU64 a b

/-- `sub_2x64(a, b)`. -/
def sub_2x64 (a b : M128) : M128 := vsubqU64 a b

/-- `add128(a, b)`. -/
def add128 (a b : M128) : M128 := vaddqU64 a b

/-- `max_u8_m128(a, b)`. -/
def maxU8M128 (a b : M128) : M128 := vmaxqU8 a b

/-- `min_u8_m128(a, b)`. -/
def minU8M128 (a b : M128) : M128 := vminqU8 a b

/-- `sadd_u8_m128(a, b)`. -/
def saddU8M128 (a b : M128) : M128 := vqaddqU8 a b

/-- `sub_u8_m128(a, b)`. -/
def subU8M128 (a b : M128) : M128 := vsubqU8 a b

/-! ## Lane shifts -/

/-- The `switch (b)` of `lshift_m128` and its kin, on lanes of `w` bits: `case 0` is `a`,
the cases `1 … w-1` the intrinsic with that immediate, `default` is `zeroes128()`. -/
def laneShiftSwitch (w : Nat) (shift : M128 → Nat → M128) (a : M128) (b : BitVec 32) : M128 :=
  if b = 0 then a else if b.toNat < w then shift a b.toNat else zeroes128

/-- `lshift_m128(a, b)`, on its path without `__builtin_constant_p`. -/
def lshiftM128 (a : M128) (b : BitVec 32) : M128 := laneShiftSwitch 32 vshlqNU32 a b

/-- `rshift_m128(a, b)`, on its path without `__builtin_constant_p`. -/
def rshiftM128 (a : M128) (b : BitVec 32) : M128 := laneShiftSwitch 32 vshrqNU32 a b

/-- `lshift64_m128(a, b)`, on its path without `__builtin_constant_p`. -/
def lshift64M128 (a : M128) (b : BitVec 32) : M128 := laneShiftSwitch 64 vshlqNU64 a b

/-- `rshift64_m128(a, b)`, on its path without `__builtin_constant_p`. -/
def rshift64M128 (a : M128) (b : BitVec 32) : M128 := laneShiftSwitch 64 vshrqNU64 a b

/-! ## `pshufb_m128` -/

/-- `pshufb_m128(a, b)`: Intel's index byte, whose bit `0x80` asks for zero, is masked
with `0x8f` into NEON's, which asks for zero from `16` up. -/
def pshufbM128 (a b : M128) : M128 :=
  let btranslated := vandqS8 b (vdupqNS8 0x8f)
  vqtbl1qS8 a btranslated

/-- The x86 `_mm_shuffle_epi8(a, b)` that `pshufb_m128` stands for: byte `j` is zero where
bit `0x80` of byte `j` of `b` is set, else byte `b[j] & 0xf` of `a`. -/
def pshufbRef (a b : M128) : M128 :=
  ofLanes 8 fun j => if (byte b j).getLsbD 7 then 0 else byte a (byte b j &&& 0x0f).toNat

/-! ## Lemmas -/

theorem lane_vld1qU32 (ptr : List (BitVec 32)) {i : Nat} (hi : i < 4) :
    lane 32 (vld1qU32 ptr) i = ptr.getD i 0 :=
  lane_ofLanes _ (by omega)

theorem lane_vld1qU64 (ptr : List (BitVec 64)) {i : Nat} (hi : i < 2) :
    lane 64 (vld1qU64 ptr) i = ptr.getD i 0 :=
  lane_ofLanes _ (by omega)

theorem lane_vcombineU64 (lo hi : BitVec 64) :
    lane 64 (vcombineU64 lo hi) 0 = lo ∧ lane 64 (vcombineU64 lo hi) 1 = hi := by
  constructor <;> ext ⟨k, hk⟩ <;> rw [getLsbD_lane, vcombineU64, BitVec.getLsbD_append] <;>
    simp [hk, show ¬ 64 + k < 64 by omega]

theorem extractLane_of_lt {w lanes : Nat} (get : M128 → Nat → BitVec w) (input : M128)
    {imm : BitVec 32} (h : imm.toNat < lanes) : extractLane get lanes input imm = get input imm.toNat :=
  if_pos h

theorem extractLane_of_le {w lanes : Nat} (get : M128 → Nat → BitVec w) (input : M128)
    {imm : BitVec 32} (h : lanes ≤ imm.toNat) : extractLane get lanes input imm = 0 :=
  if_neg (by omega)

/-- Reading lane `imm` of the vector loaded from the array `l` of `n` lanes gives `l[imm]`,
or zero past its end. -/
theorem extractLane_ofLanes {w n : Nat} (l : List (BitVec w)) (hl : l.length = n) (hn : w * n ≤ 128)
    (imm : BitVec 32) : extractLane (lane w) n (ofLanes w fun i => l.getD i 0) imm = l.getD imm.toNat 0 := by
  by_cases h : imm.toNat < n
  · have := Nat.mul_le_mul_left w (Nat.succ_le_of_lt h)
    rw [Nat.mul_succ] at this
    rw [extractLane_of_lt _ _ h, lane_ofLanes _ (by omega)]
  · rw [extractLane_of_le _ _ (by omega), List.getD_eq_getElem?_getD,
      List.getElem?_eq_none (by omega), Option.getD_none]

/-- **Lanes read back what was written, and vectors are their lanes.**  For every `imm`,
`extract32from128` of `set4x32(x3, x2, x1, x0)` is `x_imm`, and zero past lane 3; the same
for `extract64from128` of `set2x64(hi, lo)`; every vector is `set4x32` and `set2x64` of
its own lanes; and `low64from128`, `high64from128` keep one 64-bit lane, moved to the
bottom. -/
theorem lanes_roundTrip :
    (∀ x3 x2 x1 x0 imm,
      extract32from128 (set4x32 x3 x2 x1 x0) imm = [x0, x1, x2, x3].getD imm.toNat 0) ∧
      (∀ hi lo imm, extract64from128 (set2x64 hi lo) imm = [lo, hi].getD imm.toNat 0) ∧
      (∀ a, set4x32 (extract32from128 a 3) (extract32from128 a 2) (extract32from128 a 1) (movd a) = a) ∧
      (∀ a, set2x64 (extract64from128 a 1) (movq a) = a) ∧
      ∀ a, low64from128 a = set2x64 0 (movq a) ∧ high64from128 a = set2x64 0 (extract64from128 a 1) := by
  refine ⟨fun x3 x2 x1 x0 imm => extractLane_ofLanes (w := 32) (n := 4) [x0, x1, x2, x3] rfl (by decide) imm,
    fun hi lo imm => extractLane_ofLanes (w := 64) (n := 2) [lo, hi] rfl (by decide) imm, fun a => ?_, fun a => ?_,
    fun a => ⟨?_, ?_⟩⟩
  · refine ext_lane (w := 32) (by decide) fun i hi => ?_
    rw [set4x32, lane_vld1qU32 _ (by omega)]
    rcases (show i = 0 ∨ i = 1 ∨ i = 2 ∨ i = 3 by omega) with rfl | rfl | rfl | rfl <;> rfl
  all_goals
    refine ext_lane (w := 64) (by decide) fun i hi => ?_
    rw [set2x64, lane_vld1qU64 _ (by omega)]
    rcases (show i = 0 ∨ i = 1 by omega) with rfl | rfl <;>
      simp [low64from128, high64from128, lane_vcombineU64, vgetLowU64, vgetHighU64, vdupNU64, movq,
        extract64from128, extractLane, vgetqLaneU64]

/-- The switch is the intrinsic at every count, where the intrinsic is the identity at `0`
and clears the vector from `w` on. -/
theorem laneShiftSwitch_eq {w : Nat} {shift : M128 → Nat → M128} (a : M128) (b : BitVec 32)
    (h0 : shift a 0 = a) (hw : ∀ n, w ≤ n → shift a n = 0) :
    laneShiftSwitch w shift a b = shift a b.toNat := by
  unfold laneShiftSwitch
  by_cases hb : b = 0
  · rw [if_pos hb, hb, show (0 : BitVec 32).toNat = 0 from rfl, h0]
  · rw [if_neg hb]
    split
    · rfl
    · rw [hw _ (by omega)]
      rfl

/-- **The lane shifts shift every lane by every count.**  For every vector `a` and every
`unsigned b`, `lshift_m128(a, b)` is each 32-bit lane of `a` shifted left by `b` and
`rshift_m128(a, b)` each shifted right, zero once `b ≥ 32`; `lshift64_m128` and
`rshift64_m128` do the same on 64-bit lanes, zero once `b ≥ 64`. -/
theorem laneShifts_spec (a : M128) (b : BitVec 32) :
    lshiftM128 a b = ofLanes 32 (fun i => lane 32 a i <<< b.toNat) ∧
      rshiftM128 a b = ofLanes 32 (fun i => lane 32 a i >>> b.toNat) ∧
      lshift64M128 a b = ofLanes 64 (fun i => lane 64 a i <<< b.toNat) ∧
      rshift64M128 a b = ofLanes 64 (fun i => lane 64 a i >>> b.toNat) :=
  ⟨laneShiftSwitch_eq a b (vshlqN_zero (by decide) a) fun _ h => vshlqN_of_le a h,
    laneShiftSwitch_eq a b (vshrqN_zero (by decide) a) fun _ h => vshrqN_of_le a h,
    laneShiftSwitch_eq a b (vshlqN_zero (by decide) a) fun _ h => vshlqN_of_le a h,
    laneShiftSwitch_eq a b (vshrqN_zero (by decide) a) fun _ h => vshrqN_of_le a h⟩

/-- **`pshufb_m128` is x86 `pshufb`.**  For every `a` and `b`, masking each index byte with
`0x8f` sends exactly the bytes with bit `0x80` set to `16` or above, where `vqtbl1q`
gives zero, and leaves the others at `b[j] & 0xf`. -/
theorem pshufbM128_eq_pshufbRef (a b : M128) : pshufbM128 a b = pshufbRef a b := by
  -- the translation, checked on every byte
  have hidx : ∀ x : BitVec 8, (x &&& 0x8f).toNat < 16 ↔ x.getLsbD 7 = false := by decide
  have hmask : ∀ x : BitVec 8, x.getLsbD 7 = false → x &&& 0x8f = x &&& 0x0f := by decide
  show vqtbl1qS8 a (vandqS8 b (vdupqNS8 0x8f)) = _
  refine ofLanes_congr (by decide) fun j hj => ?_
  rw [vandqS8, lane_and, vdupqNS8, lane_vdupq _ (by omega)]
  show _ = if (lane 8 b j).getLsbD 7 then 0 else lane 8 a (lane 8 b j &&& 0x0f).toNat
  cases h7 : (lane 8 b j).getLsbD 7
  · rw [if_pos ((hidx _).2 h7), hmask _ h7, if_neg Bool.false_ne_true]
  · rw [if_neg fun h => by simp [(hidx _).1 h] at h7, if_pos rfl]

end Arm
