import Vectorscan.Util.Arch.Arm.SimdUtils

/-!
# `util/arch/arm/simd_utils.h`: loads and stores

Memory is byte-addressed (`Mem`), a pointer is an address, and a local `m128` object is its
16 bytes in memory order (`bytesOf`, read back by `objectOf`).  `loadu128` and `storeu128`
are `vld1q_s32` and `vst1q_s32`; `load128` and `store128` are the same after asserting that
the address is 16-byte aligned.  `storebytes128` and `loadbytes128` assert `n <= 16` and are
then a `memcpy` of `n` bytes out of or into an `m128` object, the latter zeroed first.  A
failed assertion is `none`.

    loadu128 (storeu128 mem p a) p = a,  storeu128 changes only p … p+15,
    p % 16 = 0 → load128 after store128 at p gives a, both fail elsewhere,
    n ≤ 16 → storebytes128 changes only p … p+n-1 and loadbytes128 of n bytes then gives
      a with its bytes from n on cleared, both fail for n > 16       (memory_roundTrip)
    loadbytes128 mem p 16 = some (loadu128 mem p),
    some (load_m128_from_u64a mem p) = loadbytes128 mem p 8          (loadbytes128_full)
    k ≤ 16 → loadu128 (l at p, r at p + 16) (p + k) = palignr r l k  (palignr_eq_loadu128)
-/

namespace Arm

/-! ## Algorithm -/

/-- The 16 bytes of an `m128` object in memory order, from address `0`. -/
def bytesOf (a : M128) : Mem := fun i => byte a i

/-- The `m128` object held by bytes `0 … 15` of `m`. -/
def objectOf (m : Mem) : M128 := ofLanes 8 fun i => m i

/-- `memcpy(dst, src, n)` from the object `src` at `srcPtr` into the object `mem` at `dst`. -/
def memcpy (mem : Mem) (dst : Nat) (src : Mem) (srcPtr n : Nat) : Mem :=
  fun q => if dst ≤ q ∧ q < dst + n then src (srcPtr + (q - dst)) else mem q

/-- `load128(ptr)`: `assert(ISALIGNED_N(ptr, alignof(m128)))`, then the load. -/
def load128 (mem : Mem) (ptr : Nat) : Option M128 :=
  if ptr % 16 = 0 then some (vld1qS32 mem ptr) else none

/-- `store128(ptr, a)`: `assert(ISALIGNED_N(ptr, alignof(m128)))`, then the store. -/
def store128 (mem : Mem) (ptr : Nat) (a : M128) : Option Mem :=
  if ptr % 16 = 0 then some (vst1qS32 mem ptr a) else none

/-- `loadu128(ptr)`: the unaligned load. -/
def loadu128 (mem : Mem) (ptr : Nat) : M128 := vld1qS32 mem ptr

/-- `storeu128(ptr, a)`: the unaligned store. -/
def storeu128 (mem : Mem) (ptr : Nat) (a : M128) : Mem := vst1qS32 mem ptr a

/-- `storebytes128(ptr, a, n)`: `assert(n <= sizeof(a))`, then `memcpy(ptr, &a, n)`. -/
def storebytes128 (mem : Mem) (ptr : Nat) (a : M128) (n : BitVec 32) : Option Mem :=
  if n.toNat ≤ 16 then some (memcpy mem ptr (bytesOf a) 0 n.toNat) else none

/-- `loadbytes128(ptr, n)`: `a = zeroes128(); assert(n <= sizeof(a)); memcpy(&a, ptr, n);
return a`. -/
def loadbytes128 (mem : Mem) (ptr : Nat) (n : BitVec 32) : Option M128 :=
  let a := zeroes128
  if n.toNat ≤ 16 then some (objectOf (memcpy (bytesOf a) 0 mem ptr n.toNat)) else none

/-- `*p` for a `const u64a *p`: the eight bytes at `p`, little-endian. -/
def derefU64a (mem : Mem) (p : Nat) : BitVec 64 := ofBits 64 fun b => (mem (p + b / 8)).getLsbD (b % 8)

/-- `load_m128_from_u64a(p)`: `*p` in the low 64-bit lane of `zeroes128()`. -/
def loadM128FromU64a (mem : Mem) (p : Nat) : M128 := vsetqLaneU64 (derefU64a mem p) zeroes128 0

/-! ## Lemmas -/

theorem memcpy_of_mem {mem src : Mem} {dst srcPtr n q : Nat} (h : dst ≤ q ∧ q < dst + n) :
    memcpy mem dst src srcPtr n q = src (srcPtr + (q - dst)) :=
  if_pos h

theorem memcpy_of_not_mem {mem src : Mem} {dst srcPtr n q : Nat} (h : q < dst ∨ dst + n ≤ q) :
    memcpy mem dst src srcPtr n q = mem q :=
  if_neg (by omega)

theorem vst1qS32_of_mem {mem : Mem} {ptr q : Nat} (a : M128) (h : ptr ≤ q ∧ q < ptr + 16) :
    vst1qS32 mem ptr a q = byte a (q - ptr) :=
  if_pos h

theorem vst1qS32_of_not_mem {mem : Mem} {ptr q : Nat} (a : M128) (h : q < ptr ∨ ptr + 16 ≤ q) :
    vst1qS32 mem ptr a q = mem q :=
  if_neg (by omega)

/-- A partial load that passes its assertion: the bytes at `ptr` on below `n`, zero above. -/
theorem loadbytes128_of_le (mem : Mem) (ptr : Nat) {n : BitVec 32} (hn : n.toNat ≤ 16) :
    loadbytes128 mem ptr n = some (ofLanes 8 fun j => if j < n.toNat then mem (ptr + j) else 0) := by
  simp only [loadbytes128, hn, if_true, objectOf]
  refine congrArg some (ofLanes_congr (by decide) fun j hj => ?_)
  by_cases h : j < n.toNat
  · rw [memcpy_of_mem ⟨Nat.zero_le j, by omega⟩, if_pos h, Nat.sub_zero]
  · rw [memcpy_of_not_mem (by omega), if_neg h, bytesOf, zeroes128, byte_zero]

theorem byte_loadM128FromU64a (mem : Mem) (ptr : Nat) {j : Nat} (hj : j < 16) :
    byte (loadM128FromU64a mem ptr) j = if j < 8 then mem (ptr + j) else 0 := by
  ext ⟨k, hk⟩
  rw [getLsbD_byte, loadM128FromU64a, vsetqLaneU64, getLsbD_ofLanes]
  by_cases h : j < 8
  · rw [if_pos (show (8 * j + k) / 64 = 0 by omega), derefU64a, getLsbD_ofBits, if_pos h]
    have hb : (8 * j + k) % 64 / 8 = j ∧ (8 * j + k) % 64 % 8 = k := by omega
    simp [hk, hb, show 8 * j + k < 128 by omega, show (8 * j + k) % 64 < 64 by omega]
  · rw [if_neg (show ¬ (8 * j + k) / 64 = 0 by omega), if_neg h]
    simp [zeroes128]

/-- **Stores are read back, write only their own bytes, and fail where the code asserts.**
For every memory, address and vector: `loadu128` after `storeu128` at the same address
returns the vector, and the store leaves every byte outside its 16 unchanged; at an
aligned address `load128` after `store128` returns the vector, and at any other both
fail.  For every byte count `n ≤ 16`, `storebytes128` leaves every byte outside its `n`
unchanged, and `loadbytes128` of `n` bytes then returns the vector with its bytes from `n`
on cleared; for `n > 16` both fail. -/
theorem memory_roundTrip :
    (∀ mem ptr a, loadu128 (storeu128 mem ptr a) ptr = a) ∧
      (∀ mem ptr a q, (q < ptr ∨ ptr + 16 ≤ q) → storeu128 mem ptr a q = mem q) ∧
      (∀ mem ptr a, ptr % 16 = 0 → ((store128 mem ptr a).bind fun m => load128 m ptr) = some a) ∧
      (∀ mem ptr a, ptr % 16 ≠ 0 → store128 mem ptr a = none ∧ load128 mem ptr = none) ∧
      (∀ mem ptr a (n : BitVec 32), n.toNat ≤ 16 → ∃ mem', storebytes128 mem ptr a n = some mem' ∧
        (∀ q, (q < ptr ∨ ptr + n.toNat ≤ q) → mem' q = mem q) ∧
        loadbytes128 mem' ptr n = some (ofLanes 8 fun j => if j < n.toNat then byte a j else 0)) ∧
      ∀ mem ptr a (n : BitVec 32), 16 < n.toNat →
        storebytes128 mem ptr a n = none ∧ loadbytes128 mem ptr n = none := by
  have hload : ∀ mem ptr a, vld1qS32 (vst1qS32 mem ptr a) ptr = a := fun mem ptr a =>
    ext_byte fun j hj => by
      rw [byte_vld1qS32 _ _ hj, vst1qS32_of_mem a ⟨by omega, by omega⟩, Nat.add_sub_cancel_left]
  refine ⟨hload, fun mem ptr a q h => vst1qS32_of_not_mem a h, fun mem ptr a h => ?_,
    fun mem ptr a h => ⟨if_neg h, if_neg h⟩,
    fun mem ptr a n hn => ⟨_, if_pos hn, fun q hq => memcpy_of_not_mem hq, ?_⟩,
    fun mem ptr a n hn => ⟨if_neg (by omega), ?_⟩⟩
  · rw [store128, if_pos h, Option.some_bind, load128, if_pos h, hload]
  · rw [loadbytes128_of_le _ _ hn]
    refine congrArg some (ofLanes_congr (by decide) fun j hj => ?_)
    by_cases h : j < n.toNat
    · rw [if_pos h, if_pos h, memcpy_of_mem ⟨by omega, by omega⟩, Nat.add_sub_cancel_left,
        Nat.zero_add, bytesOf]
    · rw [if_neg h, if_neg h]
  · simp only [loadbytes128, show ¬ n.toNat ≤ 16 by omega, if_false]

theorem memory_roundTrip_four :
    ∃ mem', storebytes128 (fun _ => 0) 16 movemask128Powers 4#32 = some mem' ∧
      (∀ q, (q < 16 ∨ 16 + (4#32).toNat ≤ q) → mem' q = 0) ∧
      loadbytes128 mem' 16 4#32 =
        some (ofLanes 8 fun j => if j < (4#32).toNat then byte movemask128Powers j else 0) :=
  memory_roundTrip.2.2.2.2.1 _ 16 _ 4#32 (by decide)

/-- **The partial loads agree with the full ones.**  For every memory and address,
`loadbytes128` of all 16 bytes is `loadu128`, and `load_m128_from_u64a` ("another form of
`movq`") is `loadbytes128` of 8 bytes; both byte counts pass the assertion. -/
theorem loadbytes128_full (mem : Mem) (ptr : Nat) :
    loadbytes128 mem ptr 16#32 = some (loadu128 mem ptr) ∧
      some (loadM128FromU64a mem ptr) = loadbytes128 mem ptr 8#32 := by
  rw [loadbytes128_of_le _ _ (by decide), loadbytes128_of_le _ _ (by decide)]
  refine ⟨congrArg some (ext_byte fun j hj => ?_), congrArg some (ext_byte fun j hj => ?_)⟩
  · rw [loadu128, byte_vld1qS32 _ _ hj, byte, lane_ofLanes _ (by omega)]
    exact if_pos hj
  · rw [byte_loadM128FromU64a _ _ hj, byte, lane_ofLanes _ (by omega)]
    rfl

/-- **`palignr` is an unaligned load across two stored vectors.**  For every memory,
address `p`, vectors `l` and `r` and offset `0 ≤ k ≤ 16`: with `l` stored at `p` and `r`
right after it, the 16 bytes loaded from `p + k` are `palignr(r, l, k)`. -/
theorem palignr_eq_loadu128 (mem : Mem) (p : Nat) (r l : M128) {k : BitVec 32} (hk : k.toNat ≤ 16) :
    loadu128 (storeu128 (storeu128 mem p l) (p + 16) r) (p + k.toNat) = palignr r l k := by
  refine ext_byte fun j hj => ?_
  rw [loadu128, byte_vld1qS32 _ _ hj, palignr, byte_palignrImm hk hj, storeu128, storeu128]
  by_cases h : j + k.toNat < 16
  · rw [vst1qS32_of_not_mem r (by omega), vst1qS32_of_mem l ⟨by omega, by omega⟩, if_pos h]
    congr 1
    omega
  · rw [vst1qS32_of_mem r ⟨by omega, by omega⟩, if_neg h]
    congr 1
    omega

theorem palignr_eq_loadu128_three :
    loadu128 (storeu128 (storeu128 (fun _ => 0) 0 movemask128Powers) (0 + 16) zeroes128) (0 + (3#32).toNat) =
      palignr zeroes128 movemask128Powers 3#32 :=
  palignr_eq_loadu128 _ 0 zeroes128 movemask128Powers (by decide)

end Arm
