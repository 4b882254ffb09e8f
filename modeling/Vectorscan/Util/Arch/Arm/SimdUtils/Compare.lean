import Vectorscan.Util.Arch.Arm.SimdUtils

/-!
# `util/arch/arm/simd_utils.h`: vector comparisons

`diff128` compares the 32-bit lanes, narrows the 128-bit mask to 64 bits with
`vshrn_n_u16(·, 4)` (bits `4 … 11` of each 16-bit half-lane, all ones or all zeros) and
tests the result against all ones.  The "rich" versions mask the inverted lane compare
with a table of one bit per lane and add the lanes up; the lanes hold distinct bits, so the
sum is a 4-bit mask.

    diff128 a b = if a = b then 0 else 1,   isnonzero128 a = if a = 0 then 0 else 1
                                                                      (diff128_spec)
    diff128 a b = if movemask128 (eq128 a b) = 0xFFFF then 0 else 1
                                                               (diff128_eq_movemask)
    bit i of diffrich128 a b ↔ i < 4 ∧ 32-bit word i of a and b differ,
    bit i of diffrich64_128 a b ↔ i = 0 ∧ the low words differ ∨ i = 2 ∧ the high words
    differ; each is zero exactly when a = b                           (diffrich128_spec)
-/

namespace Arm

/-! ## Algorithm -/

/-- `eq64_m128(a, b)`. -/
def eq64M128 (a b : M128) : M128 := vceqqU64 a b

/-- `diff128(a, b)`: `1` if `a` and `b` differ, otherwise `0`. -/
def diff128 (a b : M128) : BitVec 32 :=
  let res : BitVec 64 := vgetLaneU64 (vshrnNU16 (vceqqS32 a b) 4) 0
  if BitVec.allOnes 64 ≠ res then 1 else 0

/-- `isnonzero128(a)`. -/
def isnonzero128 (a : M128) : BitVec 32 := diff128 a zeroes128

/-- The `movemask` table of `diffrich128`: the `uint32x4_t` `{1, 2, 4, 8}`. -/
def diffrich128Movemask : M128 := ofLanes 32 fun i => ([1, 2, 4, 8] : List (BitVec 32)).getD i 0

/-- `diffrich128(a, b)`: a 4-bit mask of the 32-bit words that differ. -/
def diffrich128 (a b : M128) : BitVec 32 :=
  vaddvqU32 (vandqU32 (vmvnqU32 (vceqqU32 a b)) diffrich128Movemask)

/-- The `movemask` table of `diffrich64_128`: the `uint64x2_t` `{1, 4}`. -/
def diffrich64_128Movemask : M128 := ofLanes 64 fun i => ([1, 4] : List (BitVec 64)).getD i 0

/-- `diffrich64_128(a, b)`: a 4-bit mask of the 64-bit words that differ, `(u32)` of the
64-bit sum. -/
def diffrich64_128 (a b : M128) : BitVec 32 :=
  (vaddvqU64 (vandqU64 (vmvnqU32 (vceqqU64 a b)) diffrich64_128Movemask)).setWidth 32

/-! ## Lemmas -/

theorem vgetLaneU64_zero (v : BitVec 64) : vgetLaneU64 v 0 = v := by
  ext ⟨k, hk⟩
  simp [vgetLaneU64, hk]

/-- Bit `k` of the narrowed mask of `diff128` tells whether the 32-bit words `k / 16` are
equal: it is bit `4 + k % 8` of 16-bit lane `k / 8`, inside that word. -/
theorem getLsbD_diffMask (a b : M128) {k : Nat} (hk : k < 64) :
    (vshrnNU16 (vceqqS32 a b) 4).getLsbD k = decide (lane 32 a (k / 16) = lane 32 b (k / 16)) := by
  have hp : (16 * (k / 8) + (4 + k % 8)) / 32 = k / 16 := by omega
  rw [vshrnNU16, getLsbD_ofBits, BitVec.getLsbD_ushiftRight, getLsbD_lane, vceqqS32, vceqq,
    getLsbD_ofLanes, hp]
  split
  · simp only [BitVec.getLsbD_allOnes]
    simp [hk, show 4 + k % 8 < 16 by omega, show 16 * (k / 8) + (4 + k % 8) < 128 by omega,
      Nat.mod_lt _ (show 0 < 32 by decide), *]
  · simp [*]

theorem diffMask_eq_allOnes_iff (a b : M128) :
    vshrnNU16 (vceqqS32 a b) 4 = BitVec.allOnes 64 ↔ a = b := by
  constructor
  · intro h
    refine ext_lane (w := 32) (by decide) fun i hi => ?_
    have := congrArg (BitVec.getLsbD · (16 * i)) h
    simp only [getLsbD_diffMask a b (show 16 * i < 64 by omega), BitVec.getLsbD_allOnes] at this
    simpa [show 16 * i / 16 = i by omega, show 16 * i < 64 by omega] using this
  · rintro rfl
    ext ⟨k, hk⟩
    simp only [getLsbD_diffMask a a hk, BitVec.getLsbD_allOnes]
    simp [hk]

/-- A lane of the masked, inverted compare: zero where the lanes agree, the table's lane
where they differ. -/
theorem lane_vandq_vmvnq_vceqq {w i : Nat} (a b m : M128) (hi : w * i + w ≤ 128) :
    lane w (~~~vceqq w a b &&& m) i = if lane w a i = lane w b i then 0 else lane w m i := by
  rw [lane_and, lane_not _ hi, lane_vceqq _ _ hi]
  split <;> ext ⟨k, hk⟩ <;> simp [hk]

theorem getLsbD_diffrich128 (a b : M128) (i : Nat) :
    (diffrich128 a b).getLsbD i = (decide (i < 4) && decide (lane 32 a i ≠ lane 32 b i)) := by
  -- the sum of four distinct bits, on every choice of the four
  have key : ∀ d0 d1 d2 d3 : Bool,
      ((if d0 then 1 else 0) + (if d1 then 2 else 0) + (if d2 then 4 else 0) + (if d3 then 8 else 0) :
        BitVec 32) = ofBits 32 fun i => decide (i < 4) && [d0, d1, d2, d3].getD i false := by
    decide
  have hlane : ∀ j < 4, lane 32 (vandqU32 (vmvnqU32 (vceqqU32 a b)) diffrich128Movemask) j =
      if decide (lane 32 a j ≠ lane 32 b j) then ([1, 2, 4, 8] : List (BitVec 32)).getD j 0 else 0 := by
    intro j hj
    rw [vandqU32, vmvnqU32, vceqqU32, lane_vandq_vmvnq_vceqq _ _ _ (by omega), diffrich128Movemask,
      lane_ofLanes _ (by omega)]
    by_cases h : lane 32 a j = lane 32 b j <;> simp [h]
  rw [diffrich128, vaddvqU32, hlane 0 (by decide), hlane 1 (by decide), hlane 2 (by decide),
    hlane 3 (by decide)]
  erw [key, getLsbD_ofBits]
  by_cases hi : i < 4
  · have : i = 0 ∨ i = 1 ∨ i = 2 ∨ i = 3 := by omega
    rcases this with rfl | rfl | rfl | rfl <;> rfl
  · simp [hi]

theorem getLsbD_diffrich64_128 (a b : M128) (i : Nat) :
    (diffrich64_128 a b).getLsbD i =
      (decide (i = 0) && decide (lane 64 a 0 ≠ lane 64 b 0) ||
        decide (i = 2) && decide (lane 64 a 1 ≠ lane 64 b 1)) := by
  have key : ∀ d0 d1 : Bool,
      (((if d0 then 1 else 0) + (if d1 then 4 else 0) : BitVec 64).setWidth 32) =
        ofBits 32 fun i => decide (i = 0) && d0 || decide (i = 2) && d1 := by
    decide
  have hlane : ∀ j < 2, lane 64 (vandqU64 (vmvnqU32 (vceqqU64 a b)) diffrich64_128Movemask) j =
      if decide (lane 64 a j ≠ lane 64 b j) then ([1, 4] : List (BitVec 64)).getD j 0 else 0 := by
    intro j hj
    rw [vandqU64, vmvnqU32, vceqqU64, lane_vandq_vmvnq_vceqq _ _ _ (by omega), diffrich64_128Movemask,
      lane_ofLanes _ (by omega)]
    by_cases h : lane 64 a j = lane 64 b j <;> simp [h]
  rw [diffrich64_128, vaddvqU64, hlane 0 (by decide), hlane 1 (by decide)]
  erw [key, getLsbD_ofBits]
  by_cases hi : i < 32
  · simp [hi]
  · simp [hi, show i ≠ 0 by omega, show i ≠ 2 by omega]

theorem diff128_eq (a b : M128) : diff128 a b = if a = b then 0 else 1 := by
  rw [diff128, vgetLaneU64_zero]
  by_cases h : a = b
  · rw [if_pos h, if_neg (not_not.2 ((diffMask_eq_allOnes_iff a b).2 h).symm)]
  · rw [if_neg h, if_pos fun e => h ((diffMask_eq_allOnes_iff a b).1 e.symm)]

theorem isnonzero128_eq (a : M128) : isnonzero128 a = if a = 0 then 0 else 1 :=
  diff128_eq a zeroes128

/-- **`diff128` and `isnonzero128` decide (in)equality.**  For every `a` and `b`,
`diff128(a, b)` is `0` when they are equal and `1` when they differ, and
`isnonzero128(a)` is `1` exactly when `a` has a set bit. -/
theorem diff128_spec :
    (∀ a b, diff128 a b = if a = b then 0 else 1) ∧
      ∀ a, isnonzero128 a = if a = 0 then 0 else 1 :=
  ⟨diff128_eq, isnonzero128_eq⟩

/-- `movemask128(eq128(a, b))` is all 16 bits exactly when `a = b`. -/
theorem movemask128_eq128_eq_iff (a b : M128) : movemask128 (eq128 a b) = 0xFFFF#32 ↔ a = b := by
  have hF : ∀ j, (0xFFFF#32).getLsbD j = decide (j < 16) := fun j => by
    rw [BitVec.getLsbD_ofNat, show 0xFFFF = 2 ^ 16 - 1 from rfl, Nat.testBit_two_pow_sub_one,
      ← Bool.decide_and]
    exact decide_eq_decide.2 (by omega)
  rw [movemask128_eq_movemaskRef fun i hi => by rw [byte_eq128 a b hi]; split <;> simp]
  constructor
  · intro h
    refine ext_byte fun j hj => ?_
    have := congrArg (BitVec.getLsbD · j) h
    simp only [movemaskRef, getLsbD_ofBits, byte_eq128 a b hj, hF] at this
    by_contra hne
    simp [hj, hne, show j < 32 by omega] at this
  · rintro rfl
    ext ⟨j, hj⟩
    dsimp only
    rw [movemaskRef, getLsbD_ofBits, hF]
    by_cases hj16 : j < 16
    · simp only [byte_eq128 a a hj16, if_pos rfl, BitVec.getLsbD_allOnes]
      simp [hj, hj16]
    · simp [hj16]

/-- **`diff128` agrees with the `movemask` test.**  For every `a` and `b`, `diff128(a, b)`,
which narrows the 32-bit compare, is `0` exactly when `movemask128(eq128(a, b))`, the
byte compare, has all 16 bits set. -/
theorem diff128_eq_movemask (a b : M128) :
    diff128 a b = if movemask128 (eq128 a b) = 0xFFFF#32 then 0 else 1 := by
  simp only [diff128_eq, movemask128_eq128_eq_iff]

/-- **The rich differences are per-word masks.**  For every `a` and `b`, bit `i` of
`diffrich128(a, b)` is set exactly when `i < 4` and the 32-bit words `i` of `a` and `b`
differ; `diffrich64_128(a, b)` has bit `0` for the low 64-bit words and bit `2` for the
high ones and no other bit; and each is zero exactly when `a = b`, as `diff128` is. -/
theorem diffrich128_spec (a b : M128) :
    (∀ i, (diffrich128 a b).getLsbD i = (decide (i < 4) && decide (lane 32 a i ≠ lane 32 b i))) ∧
      (∀ i, (diffrich64_128 a b).getLsbD i =
        (decide (i = 0) && decide (lane 64 a 0 ≠ lane 64 b 0) ||
          decide (i = 2) && decide (lane 64 a 1 ≠ lane 64 b 1))) ∧
      (diffrich128 a b = 0 ↔ a = b) ∧ (diffrich64_128 a b = 0 ↔ a = b) := by
  refine ⟨getLsbD_diffrich128 a b, getLsbD_diffrich64_128 a b, ⟨fun h => ?_, ?_⟩, ⟨fun h => ?_, ?_⟩⟩
  · refine ext_lane (w := 32) (by decide) fun i hi => ?_
    have := getLsbD_diffrich128 a b i
    simpa [h, show i < 4 by omega] using this.symm
  · rintro rfl
    ext ⟨i, -⟩
    simp [getLsbD_diffrich128]
  · refine ext_lane (w := 64) (by decide) fun i hi => ?_
    have := getLsbD_diffrich64_128 a b (2 * i)
    rcases (show i = 0 ∨ i = 1 by omega) with rfl | rfl <;> simpa [h] using this.symm
  · rintro rfl
    ext ⟨i, -⟩
    simp [getLsbD_diffrich64_128]

end Arm
