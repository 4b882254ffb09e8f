import Vectorscan.Util.Arch.Arm.Neon

/-!
# `util/arch/arm/simd_utils.h`: `movemask128` and the byte shifts

`movemask128` masks byte `i` down to bit `i % 8`, adds the bytes pairwise three times
into one byte per 64-bit half, and moves the high half's byte next to the low one's with
`vextq_u8(mask, zeroes, 7)`.  The additions never carry, since the bits they add are
distinct; so bit `i` of the result is bit `i % 8` of byte `i`, which is the x86
`movemask` (the top bit of byte `i`) wherever each byte is `0x00` or `0xFF`.

`palignr_imm(r, l, offset)` switches on `offset`: bytes `offset … offset+15` of `l`
followed by `r`, or zero outside `0 … 16`.  The byte shifts call it through `palignr`,
here on its path without `__builtin_constant_p`.  Both `int` and `unsigned` are 32 bits
wide, so an argument is one `BitVec 32`, read by `toInt` where the code reads it as an
`int`; `16 - b` of `lshiftbyte_m128` is computed in `unsigned`.

    (movemask128 a).getLsbD i = (i < 16 && (byte a i).getLsbD (i % 8))    (movemask128_spec)
    byte (rshiftbyteM128 a b) j = if j + b < 16 then byte a (j + b) else 0,
    byte (lshiftbyteM128 a b) j = if b ≤ j then byte a (j - b) else 0      (palignrImm_spec)
-/

namespace Arm

/-- `zeroes128()`: `vdupq_n_s32(0)`. -/
def zeroes128 : M128 := 0

/-- `eq128(a, b)`: `vceqq_u8`. -/
def eq128 (a b : M128) : M128 := vceqqU8 a b

/-- The `powers` table of `movemask128`. -/
def movemask128Powers : M128 :=
  ofBytes [1, 2, 4, 8, 16, 32, 64, 128, 1, 2, 4, 8, 16, 32, 64, 128]

/-- `movemask128(a)`: the mask of the 16 bytes, stored as a `uint16_t` and returned as a
`u32`. -/
def movemask128 (a : M128) : BitVec 32 :=
  let mask := vpaddlqU32 (vpaddlqU16 (vpaddlqU8 (vandqU8 a movemask128Powers)))
  let mask1 := vextqU8 mask zeroes128 7
  let mask := vorrqU8 mask mask1
  (vst1qLaneU16 mask 0).setWidth 32

/-- The x86 `movemask` of the same vector, `_mm_movemask_epi8`: bit `i` is the top bit of
byte `i`. -/
def movemaskRef (a : M128) : BitVec 32 := ofBits 32 fun i => decide (i < 16) && (byte a i).getLsbD 7

/-- `palignr_imm(r, l, offset)`. -/
def palignrImm (r l : M128) (offset : BitVec 32) : M128 :=
  if offset.toInt = 0 then l
  else if 1 ≤ offset.toInt ∧ offset.toInt ≤ 15 then vextqS8 l r offset.toNat
  else if offset.toInt = 16 then r
  else zeroes128

/-- `palignr(r, l, offset)` where `offset` is not a compile-time constant: `palignr_imm`. -/
def palignr (r l : M128) (offset : BitVec 32) : M128 := palignrImm r l offset

/-- `rshiftbyte_m128(a, b)`. -/
def rshiftbyteM128 (a : M128) (b : BitVec 32) : M128 :=
  if b = 0 then a else palignr zeroes128 a b

/-- `lshiftbyte_m128(a, b)`. -/
def lshiftbyteM128 (a : M128) (b : BitVec 32) : M128 :=
  if b = 0 then a else palignr a zeroes128 (16#32 - b)

/-- `variable_byte_shift_m128(in, amount)`. -/
def variableByteShiftM128 (input : M128) (amount : BitVec 32) : M128 :=
  if amount.toInt < 0 then palignrImm zeroes128 input (-amount)
  else palignrImm input zeroes128 (16#32 - amount)

/-! ## `movemask128` -/

/-- Bit `i` of `a` lands at bit `b` after the stage whose lanes hold `n` bytes: `i` is bit
`i % 8` of its byte `i / 8`, that byte is one of lane `b / (8n)`'s, and `b` is bit `i % 8`
of the lane. -/
def MaskSrc (n b i : Nat) : Prop :=
  b < 128 ∧ i / 8 % 8 = i % 8 ∧ i / 8 / n = b / (8 * n) ∧ i % 8 = b % (8 * n)

/-- After the stage whose lanes hold `n` bytes, bit `b` is set exactly when a set bit of `a`
lands there. -/
def MaskStage (a : M128) (n : Nat) (x : M128) : Prop :=
  ∀ b, x.getLsbD b = true ↔ ∃ i, MaskSrc n b i ∧ a.getLsbD i = true

theorem laneIndex {w q k : Nat} (hk : k < w) : (w * q + k) / w = q ∧ (w * q + k) % w = k :=
  ⟨by rw [Nat.mul_add_div (by omega), Nat.div_eq_of_lt hk, Nat.add_zero],
    by rw [Nat.mul_add_mod, Nat.mod_eq_of_lt hk]⟩

theorem getLsbD_movemask128Powers (b : Nat) :
    movemask128Powers.getLsbD b = decide (b < 128 ∧ b % 8 = b / 8 % 8) := by
  have htable : ∀ q < 16, ∀ r < 8,
      (([1, 2, 4, 8, 16, 32, 64, 128, 1, 2, 4, 8, 16, 32, 64, 128] : List (BitVec 8)).getD q 0).getLsbD r =
        decide (r = q % 8) := by decide
  rw [movemask128Powers, ofBytes, getLsbD_ofLanes]
  by_cases hb : b < 128
  · rw [htable _ (by omega) _ (Nat.mod_lt _ (by omega))]
    simp [hb]
  · simp [hb]

/-- Masking with `powers` keeps bit `i % 8` of each byte `i`. -/
theorem maskStage_vandqU8 (a : M128) : MaskStage a 1 (vandqU8 a movemask128Powers) := by
  intro b
  rw [vandqU8, BitVec.getLsbD_and, getLsbD_movemask128Powers, Bool.and_eq_true, decide_eq_true_eq]
  constructor
  · rintro ⟨ha, hb, hb8⟩
    exact ⟨b, ⟨hb, by omega, by omega, by omega⟩, ha⟩
  · rintro ⟨i, ⟨hb, h1, h2, h3⟩, ha⟩
    obtain rfl : i = b := by omega
    exact ⟨ha, hb, by omega⟩

/-- A widening pairwise addition merges two lanes of `n` bytes into one of `2n`; the bits
it adds are distinct while `2n ≤ 8`, so it never carries. -/
theorem maskStage_vpaddlq {a x : M128} {n : Nat} (hn : n = 1 ∨ n = 2 ∨ n = 4)
    (hx : MaskStage a n x) : MaskStage a (2 * n) (vpaddlq (8 * n) x) := by
  rw [MaskStage] at hx
  have hd : ∀ j, lane (8 * n) x (2 * j) &&& lane (8 * n) x (2 * j + 1) = 0 := by
    intro j
    ext ⟨k, hk⟩
    rw [BitVec.getLsbD_and, getLsbD_lane, getLsbD_lane, Bool.eq_iff_iff,
      (by simp : (0 : BitVec (8 * n)).getLsbD k = false)]
    simp only [Bool.and_eq_true, decide_eq_true_eq, Bool.false_eq_true, iff_false, not_and]
    rintro ⟨-, h1⟩ - h2
    obtain ⟨i1, ⟨-, s1, t1, u1⟩, -⟩ := (hx _).1 h1
    obtain ⟨i2, ⟨-, s2, t2, u2⟩, -⟩ := (hx _).1 h2
    rw [(laneIndex hk).1] at t1 t2
    rw [(laneIndex hk).2] at u1 u2
    rcases hn with rfl | rfl | rfl <;> omega
  have hw : 8 * (2 * n) = 2 * (8 * n) := by omega
  intro b
  rw [getLsbD_vpaddlq hd]
  simp only [Bool.and_eq_true, Bool.or_eq_true, decide_eq_true_eq, hx, MaskSrc, hw]
  constructor
  · -- lanes `2q` and `2q + 1` of `n` bytes both make lane `q` of `2n`
    have hhalf : ∀ i, i / 8 / (2 * n) = i / 8 / n / 2 := fun i => by
      rw [Nat.div_div_eq_div_mul (i / 8) n 2, Nat.mul_comm n 2]
    rintro ⟨⟨hb, hK⟩, ⟨i, ⟨-, s, t, u⟩, hi⟩ | ⟨i, ⟨-, s, t, u⟩, hi⟩⟩ <;>
      rw [(laneIndex hK).1] at t <;> rw [(laneIndex hK).2] at u <;>
      exact ⟨i, ⟨hb, s, by rw [hhalf, t]; omega, u⟩, hi⟩
  · rintro ⟨i, ⟨hb, s, t, u⟩, hi⟩
    have hK : b % (2 * (8 * n)) < 8 * n := by omega
    rw [(laneIndex hK).1, (laneIndex hK).2, (laneIndex hK).1, (laneIndex hK).2]
    by_cases hp : i / 8 / n % 2 = 0
    · refine ⟨⟨hb, hK⟩, .inl ⟨i, ⟨?_, s, ?_, u⟩, hi⟩⟩ <;> rcases hn with rfl | rfl | rfl <;>
        simp only [Nat.reduceMul] at * <;> omega
    · refine ⟨⟨hb, hK⟩, .inr ⟨i, ⟨?_, s, ?_, u⟩, hi⟩⟩ <;> rcases hn with rfl | rfl | rfl <;>
        simp only [Nat.reduceMul] at * <;> omega

/-- Bit `i` of `movemask128 a` is bit `i % 8` of byte `i`. -/
theorem getLsbD_movemask128 (a : M128) (i : Nat) :
    (movemask128 a).getLsbD i = (decide (i < 16) && (byte a i).getLsbD (i % 8)) := by
  have h3 : MaskStage a 8 (vpaddlqU32 (vpaddlqU16 (vpaddlqU8 (vandqU8 a movemask128Powers)))) :=
    maskStage_vpaddlq (n := 4) (by decide) (maskStage_vpaddlq (n := 2) (by decide)
      (maskStage_vpaddlq (n := 1) (by decide) (maskStage_vandqU8 a)))
  rw [MaskStage] at h3
  rw [Bool.eq_iff_iff]
  simp only [movemask128, vst1qLaneU16, vorrqU8, vextqU8, zeroes128, BitVec.getLsbD_setWidth,
    getLsbD_lane, BitVec.getLsbD_or, getLsbD_vextq, getLsbD_byte, Bool.and_eq_true,
    Bool.or_eq_true, decide_eq_true_eq, Nat.mul_zero, Nat.zero_add, h3]
  by_cases hi : i < 16
  · -- the low byte takes bits `0 … 7`, and `vextq` moves the high half's byte to bits `8 … 15`
    have hsrc : ∀ j, (MaskSrc 8 i j ∨ MaskSrc 8 (8 * 7 + i) j) ↔ j = 8 * i + i % 8 := by
      intro j
      simp only [MaskSrc]
      constructor
      · rintro (⟨-, h⟩ | ⟨-, h⟩) <;> omega
      · rintro rfl
        have hbyte : (8 * i + i % 8) / 8 = i := by omega
        omega
    rw [if_pos (by omega)]
    simp only [hi, show i < 32 by omega, show i < 128 by omega, Nat.mod_lt i (by omega : 0 < 8),
      h3, true_and, ← exists_or, ← or_and_right, hsrc, exists_eq_left]
  · simp [hi]

theorem byte_eq128 (x y : M128) {j : Nat} (hj : j < 16) :
    byte (eq128 x y) j = if byte x j = byte y j then BitVec.allOnes 8 else 0 := by
  rw [eq128, vceqqU8, byte, byte, byte, lane_ofLanes _ (by omega)]

/-- Where every byte is `0x00` or `0xFF`, bit `i % 8` of byte `i` is its top bit. -/
theorem movemask128_eq_movemaskRef {a : M128}
    (h : ∀ i < 16, byte a i = 0 ∨ byte a i = BitVec.allOnes 8) : movemask128 a = movemaskRef a := by
  ext ⟨i, hi32⟩
  rw [getLsbD_movemask128, movemaskRef, getLsbD_ofBits]
  by_cases hi : i < 16
  · rcases h i hi with h | h <;> simp only [h, BitVec.getLsbD_allOnes] <;>
      simp [hi, hi32, Nat.mod_lt i (by omega : 0 < 8)]
  · simp [hi]

/-- **`movemask128` is the mask of the bytes.**  Bit `i` of the result is bit `i % 8` of
byte `i` below `16` and clear above, so it is the x86 `movemask` on every vector of whole
bytes, as `eq128` returns. -/
theorem movemask128_spec :
    (∀ a i, (movemask128 a).getLsbD i = (decide (i < 16) && (byte a i).getLsbD (i % 8))) ∧
      (∀ a, (∀ i < 16, byte a i = 0 ∨ byte a i = BitVec.allOnes 8) →
        movemask128 a = movemaskRef a) ∧
      ∀ x y, movemask128 (eq128 x y) = movemaskRef (eq128 x y) :=
  ⟨getLsbD_movemask128, fun _ => movemask128_eq_movemaskRef,
    fun x y => movemask128_eq_movemaskRef fun i hi => by rw [byte_eq128 x y hi]; split <;> simp⟩

theorem movemask128_spec_zero : movemask128 0 = movemaskRef 0 :=
  movemask128_spec.2.1 0 fun i _ => .inl (byte_zero i)

/-! ## The byte shifts -/

theorem toInt_of_toNat_le {k : BitVec 32} (hk : k.toNat ≤ 16) : k.toInt = k.toNat := by
  rw [BitVec.toInt_eq_toNat_cond, if_pos (by omega)]

/-- `palignr_imm` on `0 … 16`: bytes `offset … offset+15` of `l` followed by `r`. -/
theorem byte_palignrImm {r l : M128} {k : BitVec 32} (hk : k.toNat ≤ 16) {j : Nat} (hj : j < 16) :
    byte (palignrImm r l k) j =
      if j + k.toNat < 16 then byte l (j + k.toNat) else byte r (j + k.toNat - 16) := by
  rw [palignrImm, toInt_of_toNat_le hk]
  by_cases h0 : k.toNat = 0
  · simp [h0, hj]
  by_cases h16 : k.toNat = 16
  · simp [h16, show ¬ j + 16 < 16 by omega]
  rw [if_neg (by omega), if_pos (by omega), vextqS8, byte_vextq hj]

/-- Outside `0 … 16`, `palignr_imm` is zero. -/
theorem palignrImm_of_not_mem {r l : M128} {k : BitVec 32} (hk : k.toInt < 0 ∨ 16 < k.toInt) :
    palignrImm r l k = 0 := by
  rw [palignrImm, if_neg (by omega), if_neg (by omega), if_neg (by omega)]
  rfl

theorem palignrImm_of_lt {r l : M128} {k : BitVec 32} (hk : 16 < k.toNat) : palignrImm r l k = 0 :=
  palignrImm_of_not_mem (by rw [BitVec.toInt_eq_toNat_cond]; split <;> omega)

theorem byte_rshiftbyteM128 (a : M128) (b : BitVec 32) {j : Nat} (hj : j < 16) :
    byte (rshiftbyteM128 a b) j = if j + b.toNat < 16 then byte a (j + b.toNat) else 0 := by
  rw [rshiftbyteM128, palignr]
  by_cases h0 : b = 0
  · simp [h0, hj]
  rw [if_neg h0]
  by_cases hb : b.toNat ≤ 16
  · rw [byte_palignrImm hb hj, zeroes128, byte_zero]
  · rw [palignrImm_of_lt (by omega), byte_zero, if_neg (by omega)]

theorem byte_lshiftbyteM128 (a : M128) (b : BitVec 32) {j : Nat} (hj : j < 16) :
    byte (lshiftbyteM128 a b) j = if b.toNat ≤ j then byte a (j - b.toNat) else 0 := by
  rw [lshiftbyteM128, palignr]
  by_cases h0 : b = 0
  · simp [h0]
  rw [if_neg h0]
  have hb0 : 0 < b.toNat := Nat.pos_of_ne_zero fun h => h0 (BitVec.eq_of_toNat_eq h)
  have hsub : (16#32 - b).toNat = (4294967296 - b.toNat + 16) % 4294967296 := by
    simp [BitVec.toNat_sub]
  by_cases hb : b.toNat ≤ 16
  · rw [byte_palignrImm (by omega) hj, hsub, zeroes128, byte_zero]
    by_cases hj' : b.toNat ≤ j
    · rw [if_neg (by omega), if_pos hj']
      congr 1
      omega
    · rw [if_pos (by omega), if_neg hj']
  · rw [palignrImm_of_lt (by omega), byte_zero, if_neg (by omega)]

theorem toNat_le_of_toInt_le {k : BitVec 32} (h0 : 0 ≤ k.toInt) (h16 : k.toInt ≤ 16) :
    k.toNat ≤ 16 := by
  rw [BitVec.toInt_eq_toNat_cond] at h0 h16
  by_cases h : 2 * k.toNat < 2 ^ 32
  · rw [if_pos h] at h16
    omega
  · rw [if_neg h] at h0
    omega

/-- `variable_byte_shift_m128` is `lshiftbyte_m128` or `rshiftbyte_m128` for every
`amount`: at `0` both arms give `in`, and otherwise each is the other's `palignr_imm`. -/
theorem variableByteShiftM128_eq (input : M128) (amount : BitVec 32) :
    variableByteShiftM128 input amount =
      if 0 ≤ amount.toInt then lshiftbyteM128 input amount else rshiftbyteM128 input (-amount) := by
  rw [variableByteShiftM128, lshiftbyteM128, rshiftbyteM128, palignr, palignr]
  by_cases hneg : amount.toInt < 0
  · have hne : -amount ≠ 0 := by
      rw [neg_ne_zero]
      rintro rfl
      simp at hneg
    rw [if_pos hneg, if_neg (by omega), if_neg hne]
  · rw [if_neg hneg, if_pos (by omega)]
    by_cases h0 : amount = 0
    · rw [if_pos h0, h0, sub_zero, palignrImm, if_neg (by decide), if_neg (by decide),
        if_pos (by decide)]
    · rw [if_neg h0]

/-- **The byte shifts.**  `palignr_imm(r, l, k)` is bytes `k … k+15` of `l` followed by `r`
for `0 ≤ k ≤ 16` and zero for every other `int`; so `rshiftbyte_m128` and
`lshiftbyte_m128` move the bytes of `a` by `b` and fill with zero, for every `unsigned b`,
including those for which `16 - b` wraps; and `variable_byte_shift_m128` is the one or the
other by the sign of `amount`. -/
theorem palignrImm_spec :
    (∀ r l k, 0 ≤ k.toInt → k.toInt ≤ 16 → ∀ j < 16,
      byte (palignrImm r l k) j =
        if j + k.toNat < 16 then byte l (j + k.toNat) else byte r (j + k.toNat - 16)) ∧
      (∀ r l k, k.toInt < 0 ∨ 16 < k.toInt → palignrImm r l k = 0) ∧
      (∀ a b, ∀ j < 16,
        byte (rshiftbyteM128 a b) j = if j + b.toNat < 16 then byte a (j + b.toNat) else 0) ∧
      (∀ a b, ∀ j < 16, byte (lshiftbyteM128 a b) j = if b.toNat ≤ j then byte a (j - b.toNat) else 0) ∧
      (∀ a b, 16 ≤ b.toNat → rshiftbyteM128 a b = 0 ∧ lshiftbyteM128 a b = 0) ∧
      ∀ input amount, -16 ≤ amount.toInt → amount.toInt ≤ 16 →
        variableByteShiftM128 input amount =
          if 0 ≤ amount.toInt then lshiftbyteM128 input amount else rshiftbyteM128 input (-amount) :=
  ⟨fun _ _ _ h0 h16 _ hj => byte_palignrImm (toNat_le_of_toInt_le h0 h16) hj,
    fun _ _ _ hk => palignrImm_of_not_mem hk, fun a b _ hj => byte_rshiftbyteM128 a b hj,
    fun a b _ hj => byte_lshiftbyteM128 a b hj,
    fun a b hb => ⟨ext_byte fun j hj => by rw [byte_rshiftbyteM128 a b hj, if_neg (by omega), byte_zero],
      ext_byte fun j hj => by rw [byte_lshiftbyteM128 a b hj, if_neg (by omega), byte_zero]⟩,
    fun input amount _ _ => variableByteShiftM128_eq input amount⟩

theorem palignrImm_spec_three :
    byte (palignrImm zeroes128 movemask128Powers 3#32) 0 = byte movemask128Powers 3 ∧
      palignrImm zeroes128 movemask128Powers 17#32 = 0 ∧
      byte (rshiftbyteM128 movemask128Powers 3#32) 13 = 0 ∧
      byte (lshiftbyteM128 movemask128Powers 3#32) 3 = byte movemask128Powers 0 ∧
      lshiftbyteM128 movemask128Powers 20#32 = 0 ∧
      variableByteShiftM128 movemask128Powers (-3#32) = rshiftbyteM128 movemask128Powers 3#32 :=
  ⟨by simpa using palignrImm_spec.1 zeroes128 movemask128Powers 3#32 (by decide) (by decide) 0 (by decide),
    palignrImm_spec.2.1 _ _ 17#32 (.inr (by decide)),
    by simpa using palignrImm_spec.2.2.1 movemask128Powers 3#32 13 (by decide),
    by simpa using palignrImm_spec.2.2.2.1 movemask128Powers 3#32 3 (by decide),
    (palignrImm_spec.2.2.2.2.1 _ 20#32 (by decide)).2,
    (palignrImm_spec.2.2.2.2.2 _ (-3#32) (by decide) (by decide)).trans
      (by rw [if_neg (by decide), neg_neg])⟩

end Arm
