import Vectorscan.Rose.Reachable

/-!
# Splicing laws

`add_block` and `add_before_end(block)` pop the `END` of one of the two programs and send
the references to it on: `add_block` sends ours to the block's first instruction,
`add_before_end` sends the block's to our `END`.  Written on a program split at its
`END`, `⟨p ++ [e]⟩`, each is one append and one sweep (`addBlock_cons`,
`addBeforeEndBlock_concat`).

Splicing `A` and then `B` into `P` gives the program that splicing `B` into `A` and then
`A` into `P` gives, empty blocks included, because the sweeps compose: a reference that
`A`'s `END` held is sent on once, and no other instruction can hold `A`'s `END`, since
every program refers into itself and distinct programs share no instruction.

    (P.addBlock A).addBlock B = P.addBlock (A.addBlock B) ∧
    (P.addBeforeEndBlock A).addBeforeEndBlock B =
      P.addBeforeEndBlock (A.addBeforeEndBlock B)                      (addBlock_assoc)
-/

namespace Rose

namespace RoseProgram

/-! ## The sweeps -/

section Sweeps

variable {r s : List (InstrPtr × RoseInstruction)} {o n m : InstrPtr}

@[simp] theorem mapUpdateTarget_append :
    mapUpdateTarget (r ++ s) o n = mapUpdateTarget r o n ++ mapUpdateTarget s o n :=
  List.map_append _ _ _

@[simp] theorem mapUpdateTarget_nil : mapUpdateTarget [] o n = [] := rfl

@[simp] theorem mapUpdateTarget_cons (x : InstrPtr × RoseInstruction) :
    mapUpdateTarget (x :: r) o n = (x.1, x.2.updateTarget o n) :: mapUpdateTarget r o n := rfl

/-- A sweep for an address that no slot holds changes nothing. -/
theorem mapUpdateTarget_of_not_mem (h : ∀ x ∈ r, o ∉ x.2.targets) : mapUpdateTarget r o n = r := by
  conv_rhs => rw [← List.map_id r]
  exact List.map_congr_left fun x hx => by
    rw [RoseInstruction.updateTarget_of_not_mem n (h x hx), id]

/-- Two sweeps in a row are one, when the address passed through is held by no slot. -/
theorem mapUpdateTarget_mapUpdateTarget (h : ∀ x ∈ r, n ∉ x.2.targets) :
    mapUpdateTarget (mapUpdateTarget r o n) n m = mapUpdateTarget r o m := by
  simp only [mapUpdateTarget, List.map_map]
  exact List.map_congr_left fun x hx => by
    simp only [Function.comp, RoseInstruction.updateTarget_updateTarget (h x hx)]

end Sweeps

/-! ## The mutators on split programs -/

section Split

variable {p a : List (InstrPtr × RoseInstruction)} {eP eA a0 : InstrPtr × RoseInstruction}

@[simp] theorem empty_singleton (e : InstrPtr × RoseInstruction) :
    (⟨[e]⟩ : RoseProgram).empty = true := rfl

/-- `add_block` of a block with instructions before its `END`. -/
theorem addBlock_cons :
    (⟨p ++ [eP]⟩ : RoseProgram).addBlock ⟨a0 :: a ++ [eA]⟩ =
      ⟨mapUpdateTarget p eP.1 a0.1 ++ a0 :: a ++ [eA]⟩ := by
  simp [addBlock, empty, updateTargets_eq_mapUpdateTarget]

/-- `add_before_end` of a block with instructions before its `END`. -/
theorem addBeforeEndBlock_concat (ha : a ≠ []) :
    (⟨p ++ [eP]⟩ : RoseProgram).addBeforeEndBlock ⟨a ++ [eA]⟩ =
      ⟨p ++ mapUpdateTarget a eA.1 eP.1 ++ [eP]⟩ := by
  have hne : (⟨a ++ [eA]⟩ : RoseProgram).empty = false := by simpa [empty] using ha
  simp [addBeforeEndBlock, hne, insertBlock, updateTargets_eq_mapUpdateTarget]

end Split

/-! ## Grouping -/

/-- **Splices group either way.**  For programs built by the mutators under the header's
contract (what `insert` and `replace` are handed refers into the program), where `A`
shares no instruction with `P` nor with `B`: `add_block` of `A` then of `B` is
`add_block` of `A` after `A.add_block(B)`, and likewise for `add_before_end`, whichever
of the blocks is empty. -/
theorem addBlock_assoc {P A B : RoseProgram}
    (hP : Reachable (fun P _ ri => P.RefersInto ri) (fun P _ ri => P.RefersInto ri) P)
    (hA : Reachable (fun P _ ri => P.RefersInto ri) (fun P _ ri => P.RefersInto ri) A)
    (hB : Reachable (fun P _ ri => P.RefersInto ri) (fun P _ ri => P.RefersInto ri) B)
    (hPA : P.ptrs.Disjoint A.ptrs) (hAB : A.ptrs.Disjoint B.ptrs) :
    (P.addBlock A).addBlock B = P.addBlock (A.addBlock B) ∧
      (P.addBeforeEndBlock A).addBeforeEndBlock B = P.addBeforeEndBlock (A.addBeforeEndBlock B) := by
  have hnA := hA.ptrs_nodup
  have hcP := hP.refersInto id id
  have hcB := hB.refersInto id id
  obtain ⟨p, eP, rfl⟩ := hP.eq_concat
  obtain ⟨a, eA, rfl⟩ := hA.eq_concat
  obtain ⟨b, eB, rfl⟩ := hB.eq_concat
  -- no slot of `P` or `B` holds `A`'s `END`
  have hEndP : ∀ x ∈ p, eA.1 ∉ x.2.targets := fun x hx ht =>
    hPA (hcP x (by simp [hx]) _ ht) (by simp)
  have hEndB : ∀ x ∈ b, eA.1 ∉ x.2.targets := fun x hx ht =>
    hAB (by simp) (hcB x (by simp [hx]) _ ht)
  constructor
  · rcases a with _ | ⟨a0, a⟩ <;> rcases b with _ | ⟨b0, b⟩
    · simp [addBlock_of_empty]
    · rw [@addBlock_cons [] b eA eB b0]
      simp [addBlock_of_empty]
    · simp [addBlock_of_empty]
    · have ha0 : a0.1 ≠ eA.1 := fun h => by simp [ptrs, h] at hnA
      have hX : ∀ x ∈ mapUpdateTarget p eP.1 a0.1, eA.1 ∉ x.2.targets := fun x hx ht => by
        obtain ⟨y, hy, -, ⟨h, -⟩ | ⟨-, h⟩⟩ := mem_targets_mapUpdateTarget hx ht
        exacts [ha0 h.symm, hEndP y hy h]
      have hA' : mapUpdateTarget (a0 :: a) eA.1 b0.1 ++ b0 :: b ++ [eB] =
          (a0.1, a0.2.updateTarget eA.1 b0.1) :: (mapUpdateTarget a eA.1 b0.1 ++ b0 :: b) ++ [eB] := by
        simp
      simp only [addBlock_cons]
      rw [hA', addBlock_cons]
      simp [mapUpdateTarget_of_not_mem hX]
  · rcases a with _ | ⟨a0, a⟩ <;> rcases b with _ | ⟨b0, b⟩
    · simp [addBeforeEndBlock_of_empty]
    · rw [addBeforeEndBlock_of_empty (B := ⟨[] ++ [eA]⟩) (by simp [empty]),
        addBeforeEndBlock_concat (List.cons_ne_nil b0 b), addBeforeEndBlock_concat (List.cons_ne_nil b0 b),
        addBeforeEndBlock_concat (a := [] ++ mapUpdateTarget (b0 :: b) eB.1 eA.1) (by simp),
        List.nil_append, mapUpdateTarget_mapUpdateTarget hEndB]
    · simp [addBeforeEndBlock_of_empty]
    · rw [addBeforeEndBlock_concat (List.cons_ne_nil a0 a),
        addBeforeEndBlock_concat (List.cons_ne_nil b0 b), addBeforeEndBlock_concat (List.cons_ne_nil b0 b),
        addBeforeEndBlock_concat (a := a0 :: a ++ mapUpdateTarget (b0 :: b) eB.1 eA.1) (by simp),
        mapUpdateTarget_append, mapUpdateTarget_mapUpdateTarget hEndB]
      simp only [List.append_assoc]

theorem addBlock_assoc_onlyEod :
    (((RoseProgram.init 0).addBeforeEnd (1, .roseInstrCheckOnlyEod 0)).addBlock
          ((RoseProgram.init 2).addBeforeEnd (3, .roseInstrCheckOnlyEod 2))).addBlock
        ((RoseProgram.init 4).addBeforeEnd (5, .roseInstrCheckOnlyEod 4)) =
      ((RoseProgram.init 0).addBeforeEnd (1, .roseInstrCheckOnlyEod 0)).addBlock
        (((RoseProgram.init 2).addBeforeEnd (3, .roseInstrCheckOnlyEod 2)).addBlock
          ((RoseProgram.init 4).addBeforeEnd (5, .roseInstrCheckOnlyEod 4))) ∧
    (((RoseProgram.init 0).addBeforeEnd (1, .roseInstrCheckOnlyEod 0)).addBeforeEndBlock
          ((RoseProgram.init 2).addBeforeEnd (3, .roseInstrCheckOnlyEod 2))).addBeforeEndBlock
        ((RoseProgram.init 4).addBeforeEnd (5, .roseInstrCheckOnlyEod 4)) =
      ((RoseProgram.init 0).addBeforeEnd (1, .roseInstrCheckOnlyEod 0)).addBeforeEndBlock
        (((RoseProgram.init 2).addBeforeEnd (3, .roseInstrCheckOnlyEod 2)).addBeforeEndBlock
          ((RoseProgram.init 4).addBeforeEnd (5, .roseInstrCheckOnlyEod 4))) :=
  addBlock_assoc (.addBeforeEnd (.init 0) (by decide) (by decide))
    (.addBeforeEnd (.init 2) (by decide) (by decide)) (.addBeforeEnd (.init 4) (by decide) (by decide))
    (List.disjoint_left.2 (by decide)) (List.disjoint_left.2 (by decide))

end RoseProgram

end Rose
