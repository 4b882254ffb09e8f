import Vectorscan.Util.Arch.Arm.SimdUtils.Lanes
import Vectorscan.Util.Arch.Arm.SimdUtils.Compare
import Vectorscan.Util.Arch.Arm.SimdUtils.Memory
import Mathlib.Data.Fintype.Basic

/-!
# `util/arch/arm/simd_utils.h`: the one-bit masks and the bit set of an `m128`

`mask1bit128(n)` loads 16 bytes of the table `simd_onebit_masks` from index
`(n % 8) * 64 + 95 - n / 8`.  Row `r = 1 … 8` of the table (64 bytes each) holds
`1 << (r - 1)` at column 31 and zeros elsewhere, so the load, which starts `n / 8` bytes
before that entry of row `n % 8 + 1`, holds `1 << (n % 8)` at byte `n / 8` and nothing
else: bit `n` alone.  For `n < 128`, `mask_idx ≤ 7 * 64 + 95`, so the 16 bytes lie inside
the 640 of the table.

`setbit128`, `clearbit128` and `testbit128` treat an `m128` as the set of its bit numbers
(`bitsOf`): they are insert, erase and membership, one call at a time and so over every
sequence of calls.

    n < 128 → mask1bit128 n = twoPow 128 n                            (mask1bit128_eq)
    bitsOf (setbit128 v n) = insert n (bitsOf v),
    bitsOf (clearbit128 v n) = (bitsOf v).erase n,
    testbit128 v n = if n ∈ bitsOf v then 1 else 0, also after any run of calls
                                                                     (bitset_refinement)
-/

namespace Arm

/-! ## Algorithm -/

/-- `ZEROES_8`. -/
def zeroes8 : List (BitVec 8) := [0, 0, 0, 0, 0, 0, 0, 0]

/-- `ZEROES_31`. -/
def zeroes31 : List (BitVec 8) := zeroes8 ++ zeroes8 ++ zeroes8 ++ [0, 0, 0, 0, 0, 0, 0]

/-- `ZEROES_32`. -/
def zeroes32 : List (BitVec 8) := zeroes8 ++ zeroes8 ++ zeroes8 ++ zeroes8

/-- `simd_onebit_masks`, the LUT for the mask1bit functions. -/
def simdOnebitMasks : List (BitVec 8) :=
  zeroes32 ++ zeroes32 ++
  zeroes31 ++ [0x01] ++ zeroes32 ++
  zeroes31 ++ [0x02] ++ zeroes32 ++
  zeroes31 ++ [0x04] ++ zeroes32 ++
  zeroes31 ++ [0x08] ++ zeroes32 ++
  zeroes31 ++ [0x10] ++ zeroes32 ++
  zeroes31 ++ [0x20] ++ zeroes32 ++
  zeroes31 ++ [0x40] ++ zeroes32 ++
  zeroes31 ++ [0x80] ++ zeroes32 ++
  zeroes32 ++ zeroes32

/-- The memory `simd_onebit_masks` occupies, from address `0`. -/
def simdOnebitMasksMem : Mem := fun i => simdOnebitMasks.getD i 0

/-- `mask_idx` of `mask1bit128(n)`, in `u32` arithmetic. -/
def mask1bit128MaskIdx (n : BitVec 32) : BitVec 32 :=
  let maskIdx : BitVec 32 := n % 8 * 64 + 95
  maskIdx - n / 8

/-- `mask1bit128(n)`: `loadu128(&simd_onebit_masks[mask_idx])`. -/
def mask1bit128 (n : BitVec 32) : M128 := loadu128 simdOnebitMasksMem (mask1bit128MaskIdx n).toNat

/-- `setbit128(ptr, n)`: the new `*ptr`, from the old one `v`. -/
def setbit128 (v : M128) (n : BitVec 32) : M128 := or128 (mask1bit128 n) v

/-- `clearbit128(ptr, n)`: the new `*ptr`, from the old one `v`. -/
def clearbit128 (v : M128) (n : BitVec 32) : M128 := andnot128 (mask1bit128 n) v

/-- `testbit128(val, n)`: the `int` of `isnonzero128` returned as a `char`. -/
def testbit128 (val : M128) (n : BitVec 32) : BitVec 8 :=
  let mask := mask1bit128 n
  (isnonzero128 (and128 mask val)).setWidth 8

/-! ## The bit set -/

/-- The bit numbers set in `v`. -/
def bitsOf (v : M128) : Finset (Fin 128) := Finset.univ.filter fun i => v.getLsbD i

/-- One call of `setbit128` or `clearbit128`, on a bit number below 128. -/
inductive BitOp
  | set (i : Fin 128)
  | clear (i : Fin 128)
  deriving DecidableEq, Repr

/-- The call, on the vector. -/
def BitOp.exec : BitOp → M128 → M128
  | .set i, v => setbit128 v (BitVec.ofNat 32 i)
  | .clear i, v => clearbit128 v (BitVec.ofNat 32 i)

/-- The call, on the set of bit numbers. -/
def BitOp.execSet : BitOp → Finset (Fin 128) → Finset (Fin 128)
  | .set i, s => insert i s
  | .clear i, s => s.erase i

/-! ## Lemmas -/

set_option maxRecDepth 8000 in
/-- Row `r = 1 … 8` holds `1 << (r - 1)` at column 31; every other entry is zero. -/
theorem simdOnebitMasks_eq : simdOnebitMasks = (List.range 640).map fun i =>
    if i % 64 = 31 ∧ 1 ≤ i / 64 ∧ i / 64 ≤ 8 then BitVec.twoPow 8 (i / 64 - 1) else 0 :=
  rfl

theorem simdOnebitMasksMem_apply (i : Nat) :
    simdOnebitMasksMem i =
      if i % 64 = 31 ∧ 1 ≤ i / 64 ∧ i / 64 ≤ 8 then BitVec.twoPow 8 (i / 64 - 1) else 0 := by
  rw [simdOnebitMasksMem, simdOnebitMasks_eq, List.getD_eq_getElem?_getD]
  by_cases hi : i < 640
  · simp [hi]
  · rw [List.getElem?_eq_none (by simp; omega), Option.getD_none, if_neg (by omega)]

/-- Below 128 the `u32` arithmetic of `mask_idx` does not wrap. -/
theorem mask1bit128MaskIdx_toNat {n : BitVec 32} (hn : n.toNat < 128) :
    (mask1bit128MaskIdx n).toNat = n.toNat % 8 * 64 + 95 - n.toNat / 8 := by
  have h8 : (8 : BitVec 32).toNat = 8 := rfl
  have h64 : (64 : BitVec 32).toNat = 64 := rfl
  have h95 : (95 : BitVec 32).toNat = 95 := rfl
  simp only [mask1bit128MaskIdx, BitVec.toNat_sub, BitVec.toNat_add, BitVec.toNat_mul,
    BitVec.toNat_umod, BitVec.toNat_udiv, h8, h64, h95]
  omega

theorem byte_mask1bit128 {n : BitVec 32} (hn : n.toNat < 128) {j : Nat} (hj : j < 16) :
    byte (mask1bit128 n) j = if j = n.toNat / 8 then BitVec.twoPow 8 (n.toNat % 8) else 0 := by
  rw [mask1bit128, loadu128, byte_vld1qS32 _ _ hj, simdOnebitMasksMem_apply,
    mask1bit128MaskIdx_toNat hn]
  by_cases h : j = n.toNat / 8
  · rw [if_pos (by omega), if_pos h,
      show (n.toNat % 8 * 64 + 95 - n.toNat / 8 + j) / 64 - 1 = n.toNat % 8 by omega]
  · rw [if_neg (by omega), if_neg h]

theorem mask1bit128_eq {n : BitVec 32} (hn : n.toNat < 128) :
    mask1bit128 n = BitVec.twoPow 128 n.toNat := by
  ext ⟨m, hm⟩
  dsimp only
  have := congrArg (BitVec.getLsbD · (m % 8)) (byte_mask1bit128 hn (show m / 8 < 16 by omega))
  simp only [getLsbD_byte, Nat.mod_lt m (show 0 < 8 by decide), decide_True, Bool.true_and,
    Nat.div_add_mod] at this
  rw [this, BitVec.getLsbD_twoPow]
  by_cases h : m / 8 = n.toNat / 8
  · rw [if_pos h, BitVec.getLsbD_twoPow]
    simp only [hn, Nat.mod_lt _ (show 0 < 8 by decide), decide_True, Bool.true_and]
    exact decide_eq_decide.2 (by omega)
  · rw [if_neg h]
    simp [show n.toNat ≠ m by omega]

theorem getLsbD_setbit128 {n : BitVec 32} (hn : n.toNat < 128) (v : M128) (m : Nat) :
    (setbit128 v n).getLsbD m = (decide (m = n.toNat) || v.getLsbD m) := by
  rw [setbit128, or128, vorrqS8, BitVec.getLsbD_or, mask1bit128_eq hn, BitVec.getLsbD_twoPow]
  simp [hn, eq_comm]

theorem getLsbD_clearbit128 {n : BitVec 32} (hn : n.toNat < 128) (v : M128) (m : Nat) :
    (clearbit128 v n).getLsbD m = (!decide (m = n.toNat) && v.getLsbD m) := by
  rw [clearbit128, andnot128, vandqS8, vmvnqS8, BitVec.getLsbD_and, BitVec.getLsbD_not,
    mask1bit128_eq hn, BitVec.getLsbD_twoPow]
  by_cases hm : m < 128
  · simp [hm, hn, eq_comm]
  · simp [hm, BitVec.getLsbD_ge v m (by omega)]

theorem testbit128_eq {n : BitVec 32} (hn : n.toNat < 128) (v : M128) :
    testbit128 v n = if v.getLsbD n.toNat then 1 else 0 := by
  have h0 : BitVec.twoPow 128 n.toNat &&& v = 0 ↔ v.getLsbD n.toNat = false := by
    constructor
    · intro h
      simpa [hn] using congrArg (BitVec.getLsbD · n.toNat) h
    · intro h
      ext ⟨m, hm⟩
      by_cases hmn : n.toNat = m
      · subst hmn
        simp [h]
      · simp [BitVec.getLsbD_twoPow, hmn]
  rw [testbit128, isnonzero128_eq, and128, vandqS8, mask1bit128_eq hn]
  cases hv : v.getLsbD n.toNat
  · rw [if_pos (h0.2 hv)]
    rfl
  · rw [if_neg (by rw [h0, hv]; decide)]
    rfl

theorem mem_bitsOf {v : M128} {i : Fin 128} : i ∈ bitsOf v ↔ v.getLsbD i = true := by
  simp [bitsOf]

theorem bitsOf_setbit128 {n : BitVec 32} (hn : n.toNat < 128) (v : M128) :
    bitsOf (setbit128 v n) = insert ⟨n.toNat, hn⟩ (bitsOf v) := by
  ext i
  simp [mem_bitsOf, getLsbD_setbit128 hn, Fin.ext_iff]

theorem bitsOf_clearbit128 {n : BitVec 32} (hn : n.toNat < 128) (v : M128) :
    bitsOf (clearbit128 v n) = (bitsOf v).erase ⟨n.toNat, hn⟩ := by
  ext i
  simp [mem_bitsOf, getLsbD_clearbit128 hn, Fin.ext_iff]

theorem toNat_ofNat_fin (i : Fin 128) : (BitVec.ofNat 32 i).toNat = i := by
  simp only [BitVec.toNat_ofNat]
  omega

/-- Each call moves the set as its abstract counterpart does. -/
theorem bitsOf_exec (op : BitOp) (v : M128) : bitsOf (op.exec v) = op.execSet (bitsOf v) := by
  have hfin : ∀ i : Fin 128, ∃ hi : (BitVec.ofNat 32 i).toNat < 128, (⟨_, hi⟩ : Fin 128) = i :=
    fun i => ⟨by rw [toNat_ofNat_fin]; exact i.2, Fin.ext (toNat_ofNat_fin i)⟩
  cases op with
  | set i =>
      obtain ⟨hi, he⟩ := hfin i
      rw [BitOp.exec, BitOp.execSet, bitsOf_setbit128 hi, he]
  | clear i =>
      obtain ⟨hi, he⟩ := hfin i
      rw [BitOp.exec, BitOp.execSet, bitsOf_clearbit128 hi, he]

/-- Over a run of calls, the set of the vector is the abstract run from its set. -/
theorem bitsOf_foldl_exec (ops : List BitOp) (v : M128) :
    bitsOf (ops.foldl (fun v op => op.exec v) v) = ops.foldl (fun s op => op.execSet s) (bitsOf v) := by
  induction ops generalizing v with
  | nil => rfl
  | cons op ops ih => rw [List.foldl_cons, List.foldl_cons, ih, bitsOf_exec]

/-- **An `m128` is a bit set under `setbit128`, `clearbit128` and `testbit128`.**  For every
vector `v` and `unsigned n` below 128, `setbit128` inserts `n` into the set of bits of `v`,
`clearbit128` erases it, and `testbit128` is `1` exactly when `n` is in the set; and after
any sequence of calls the set of bits is the one the same sequence of inserts and erases
gives, so `testbit128` answers membership in it. -/
theorem bitset_refinement :
    (∀ v (n : BitVec 32) (hn : n.toNat < 128),
      bitsOf (setbit128 v n) = insert ⟨n.toNat, hn⟩ (bitsOf v) ∧
        bitsOf (clearbit128 v n) = (bitsOf v).erase ⟨n.toNat, hn⟩ ∧
        testbit128 v n = if ⟨n.toNat, hn⟩ ∈ bitsOf v then 1 else 0) ∧
      ∀ (ops : List BitOp) v (i : Fin 128),
        bitsOf (ops.foldl (fun v op => op.exec v) v) = ops.foldl (fun s op => op.execSet s) (bitsOf v) ∧
          testbit128 (ops.foldl (fun v op => op.exec v) v) (BitVec.ofNat 32 i) =
            if i ∈ ops.foldl (fun s op => op.execSet s) (bitsOf v) then 1 else 0 := by
  have htest : ∀ v (n : BitVec 32) (hn : n.toNat < 128),
      testbit128 v n = if (⟨n.toNat, hn⟩ : Fin 128) ∈ bitsOf v then 1 else 0 := fun v n hn => by
    simp only [testbit128_eq hn, mem_bitsOf]
  refine ⟨fun v n hn => ⟨bitsOf_setbit128 hn v, bitsOf_clearbit128 hn v, htest v n hn⟩,
    fun ops v i => ⟨bitsOf_foldl_exec ops v, ?_⟩⟩
  have hi : (BitVec.ofNat 32 i).toNat < 128 := by rw [toNat_ofNat_fin]; exact i.2
  rw [htest _ _ hi, ← bitsOf_foldl_exec]
  simp only [toNat_ofNat_fin]

theorem bitset_refinement_five : testbit128 (setbit128 0 5#32) 5#32 = 1 := by
  rw [(bitset_refinement.1 (setbit128 0 5#32) 5#32 (by decide)).2.2,
    (bitset_refinement.1 0 5#32 (by decide)).1]
  simp

end Arm
