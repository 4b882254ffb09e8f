import Vectorscan.Rose.Index
import Vectorscan.Rose.Equivalence

/-!
# The pointer programs refine the position model

`resolve` reads a program as the position program the assembler lays out: each target is
replaced by the position of the instruction it points to.  On well-formed programs (unique
addresses, every target inside the program) each mutator is the corresponding edit of
`Vectorscan.Rose.Index`:

    resolve (P.insert k ri).1 = Index.insert (resolve P) k (P.resolveOne ri)   (resolve_insert)
    resolve (P.insertBlock k B).1 = Index.insertBlock (resolve P) k (resolve B)
                                                                      (resolve_insertBlock)
    resolve (P.addBlock B) = Index.addBlock (resolve P) (resolve B)     (resolve_addBlock)
    resolve (P.replace k N) = (resolve P).set k (P.resolveOne N)         (resolve_replace)

So every program built under the callers' conditions resolves to a position program the
edits build (`resolve_indexReachable`), which ends with its `END` and has every target
inside it (`IndexReachable.wellFormed`).

The position program is also what `RoseProgramEquivalence` compares: on closed programs
outside `SPARSE_ITER_BEGIN` whose offsets fit in a `u32`,

    roseProgramEquivalence R P Q = some true ↔ resolve P = resolve Q
                                                       (roseProgramEquivalence_iff_resolve)

and, through the squares above, splicing equivalent blocks into equivalent programs gives
equivalent programs (`roseProgramEquivalence_addBlock`, `roseProgramEquivalence_insertBlock`).
-/

namespace Rose

namespace RoseProgram

/-- `ri` with each target read as the position in `P` of the instruction it points to. -/
def resolveOne (P : RoseProgram) (ri : InstrPtr × RoseInstruction) : RoseInstruction :=
  ri.2.mapTargets (P.ptrs.indexOf ·)

/-- The program as the sequence the assembler lays out, targets read as positions. -/
def resolve (P : RoseProgram) : List RoseInstruction :=
  P.prog.map P.resolveOne

/-! ## Lemmas -/

/-- Reading the slots through `f`, where `f` is `g` after `h` on the slots. -/
theorem mapTargets_of_eq_comp {x : RoseInstruction} {f h g : InstrPtr → Nat}
    (hfg : ∀ t ∈ x.targets, f t = g (h t)) : x.mapTargets f = (x.mapTargets h).mapTargets g := by
  rw [RoseInstruction.mapTargets_mapTargets]
  exact RoseInstruction.mapTargets_congr hfg

theorem indexOf_lt_of_mem_take {l : List Nat} {k p : Nat} (hp : p ∈ l.take k) : l.indexOf p < k := by
  have := List.indexOf_lt_length.2 hp
  rw [← List.take_append_drop k l, List.indexOf_append_of_mem hp]
  exact lt_of_lt_of_le this (List.length_take_le _ _)

theorem mapTargets_updateTarget (x : RoseInstruction) (o n : InstrPtr) (f : InstrPtr → Nat) :
    (x.updateTarget o n).mapTargets f = x.mapTargets fun t => f (if t = o then n else t) :=
  RoseInstruction.mapTargets_mapTargets _ _ x

/-- An address of `l` moves up by the size of a range spliced in before it. -/
theorem indexOf_splice {l m : List Nat} {k : Nat} (hk : k ≤ l.length) {p : Nat} (hp : p ∈ l)
    (hpm : p ∉ m) : (l.take k ++ m ++ l.drop k).indexOf p = shiftFrom k m.length (l.indexOf p) := by
  rw [List.append_assoc]
  by_cases ht : p ∈ l.take k
  · rw [List.indexOf_append_of_mem ht, shiftFrom, if_pos (indexOf_lt_of_mem_take ht)]
    conv_rhs => rw [← List.take_append_drop k l, List.indexOf_append_of_mem ht]
  · have hd : p ∈ l.drop k := by
      rw [← List.take_append_drop k l, List.mem_append] at hp
      exact hp.resolve_left ht
    rw [List.indexOf_append_of_not_mem ht, List.indexOf_append_of_not_mem hpm, shiftFrom]
    conv_rhs => rw [← List.take_append_drop k l, List.indexOf_append_of_not_mem ht]
    simp only [List.length_take, min_eq_left hk]
    rw [if_neg (by omega)]
    omega

/-- An address of the spliced range sits at `k` plus its place in the range. -/
theorem indexOf_splice_mid {l m : List Nat} {k : Nat} (hk : k ≤ l.length) {p : Nat}
    (hp : p ∈ m) (hpl : p ∉ l) : (l.take k ++ m ++ l.drop k).indexOf p = k + m.indexOf p := by
  have ht : p ∉ l.take k := fun h => hpl (List.take_subset _ _ h)
  rw [List.append_assoc, List.indexOf_append_of_not_mem ht, List.indexOf_append_of_mem hp,
    List.length_take, min_eq_left hk]

/-- A block spliced before position `k`, its last address `bend` redirected to the address at
`k`: each of its addresses lands at `k` plus its place in the block. -/
theorem indexOf_splice_redirect {l m : List Nat} {bend k : Nat} (hnl : l.Nodup) (hk : k < l.length)
    (hbend : bend ∉ m) (hd : ∀ t ∈ m, t ∉ l) {t : Nat} (ht : t ∈ m ++ [bend]) :
    (l.take k ++ m ++ l.drop k).indexOf (if t = bend then l[k] else t) =
      (m ++ [bend]).indexOf t + k := by
  split_ifs with h
  · subst h
    rw [indexOf_splice hk.le (List.getElem_mem hk) fun h' => hd _ h' (List.getElem_mem hk),
      List.indexOf_getElem hnl k hk, List.indexOf_append_of_not_mem hbend, shiftFrom,
      if_neg (Nat.lt_irrefl k), List.indexOf_cons_self]
    omega
  · have htm : t ∈ m := (List.mem_append.1 ht).resolve_right fun h' => h (List.mem_singleton.1 h')
    rw [indexOf_splice_mid hk.le htm (hd t htm), List.indexOf_append_of_mem htm]
    omega

/-- Our `END` address `pend`, redirected to the first address of a block appended in its
place, takes its position; every other address keeps its own. -/
theorem indexOf_append_redirect {l b : List Nat} {pend : Nat} (hb : b ≠ []) (hend : pend ∉ l)
    (hd : ∀ t ∈ b, t ∉ l) {t : Nat} (ht : t ∈ l ++ [pend]) :
    (l ++ b).indexOf (if t = pend then b.head hb else t) = (l ++ [pend]).indexOf t := by
  split_ifs with h
  · subst h
    obtain ⟨b0, bs, rfl⟩ := List.exists_cons_of_ne_nil hb
    rw [List.head_cons, List.indexOf_append_of_not_mem (hd _ (List.mem_cons_self _ _)),
      List.indexOf_append_of_not_mem hend]
    simp
  · have htl : t ∈ l := (List.mem_append.1 ht).resolve_right fun h' => h (List.mem_singleton.1 h')
    rw [List.indexOf_append_of_mem htl, List.indexOf_append_of_mem htl]

section Resolve

variable {P B : RoseProgram}

/-- **`insert(it, block)` is `Index.insertBlock`.** -/
theorem resolve_insertBlock {k : Nat} (hnP : P.ptrs.Nodup) (hnB : B.ptrs.Nodup)
    (hcP : ∀ x ∈ P.prog, P.RefersInto x) (hcB : ∀ x ∈ B.prog, B.RefersInto x)
    (hd : P.ptrs.Disjoint B.ptrs) (hk : k < P.size) (hB : B.prog ≠ []) :
    resolve (P.insertBlock k B).1 = Index.insertBlock (resolve P) k (resolve B) := by
  have hlenB : (resolve B).length - 1 = (B.prog.dropLast.map Prod.fst).length := by
    simp [resolve]
  cases hne : B.empty
  · rw [insertBlock_of_lt hk hB hne]
    set bend := (B.prog.getLast hB).1
    set pk := (P.prog.get ⟨k, hk⟩).1
    set m := B.prog.dropLast.map Prod.fst
    set P' : RoseProgram := ⟨P.prog.take k ++ mapUpdateTarget B.prog.dropLast bend pk ++ P.prog.drop k⟩
    have hkl : k ≤ P.ptrs.length := by simp only [size, ptrs, List.length_map] at hk ⊢; omega
    have hBptrs : B.ptrs = m ++ [bend] := by
      conv_lhs => rw [ptrs, ← List.dropLast_append_getLast hB]
      simp [m, bend]
    have hmB : ∀ {t}, t ∈ m → t ∈ B.ptrs := fun h => hBptrs ▸ List.mem_append_left _ h
    have hptrs : P'.ptrs = P.ptrs.take k ++ m ++ P.ptrs.drop k := by
      simp [P', ptrs, m, List.map_take, List.map_drop]
    have hP : ∀ t ∈ P.ptrs, P'.ptrs.indexOf t = shiftFrom k m.length (P.ptrs.indexOf t) :=
      fun t ht => hptrs ▸ indexOf_splice hkl ht fun h => hd ht (hmB h)
    have hBidx : ∀ t ∈ B.ptrs, P'.ptrs.indexOf (if t = bend then pk else t) = B.ptrs.indexOf t + k := by
      intro t ht
      have hk' : k < P.ptrs.length := by simpa [ptrs] using hk
      have hpk : pk = P.ptrs[k] := by simp [pk, ptrs]
      rw [hBptrs] at ht ⊢
      rw [hptrs, hpk]
      exact indexOf_splice_redirect hnP hk' (fst_getLast_not_mem_dropLast hnB hB)
        (fun t ht' h' => hd h' (hmB ht')) ht
    show (P'.prog).map P'.resolveOne = _
    rw [Index.insertBlock, hlenB, resolve, resolve, ← List.map_take, ← List.map_drop,
      ← List.map_dropLast, List.map_map, List.map_map, List.map_map]
    simp only [P', List.map_append]
    refine congrArg₂ (· ++ ·) (congrArg₂ (· ++ ·) ?_ ?_) ?_
    · refine List.map_congr_left fun e he => mapTargets_of_eq_comp fun t ht => hP t ?_
      exact hcP e (List.take_subset _ _ he) t ht
    · simp only [mapUpdateTarget, List.map_map]
      refine List.map_congr_left fun e he => ?_
      simp only [Function.comp, resolveOne, mapTargets_updateTarget]
      refine mapTargets_of_eq_comp fun t ht => hBidx t ?_
      exact hcB e (List.dropLast_sublist _ |>.subset he) t ht
    · refine List.map_congr_left fun e he => mapTargets_of_eq_comp fun t ht => hP t ?_
      exact hcP e (List.drop_subset _ _ he) t ht
  · rw [insertBlock_of_empty k hne, Index.insertBlock_of_length_eq_one _ k (by simpa [resolve, empty] using hne)]

/-- A program that ends with its `END` resolves to a position program that ends with it. -/
theorem getLast?_resolve (h : P.EndAsserts) : (resolve P).getLast? = some .roseInstrEnd := by
  obtain ⟨e, hl, hcode⟩ := h
  rw [resolve, List.getLast?_map, hl, Option.map_some', resolveOne,
    RoseInstruction.eq_end_of_code hcode]
  rfl

/-- An empty program, its `END` alone, resolves to `[END]`. -/
theorem resolve_of_empty (h : P.EndAsserts) (hne : P.empty = true) :
    resolve P = [.roseInstrEnd] := by
  obtain ⟨b, hb⟩ := List.length_eq_one.1 (by simpa [empty] using hne : P.prog.length = 1)
  have hl := getLast?_resolve h
  rw [resolve, hb, List.map_singleton, List.getLast?_singleton, Option.some.injEq] at hl
  rw [resolve, hb, List.map_singleton, hl]

/-- **`add_block(block)` is `Index.addBlock`.** -/
theorem resolve_addBlock (hnP : P.ptrs.Nodup) (hcP : ∀ x ∈ P.prog, P.RefersInto x)
    (hcB : ∀ x ∈ B.prog, B.RefersInto x) (hd : P.ptrs.Disjoint B.ptrs) (hEP : P.EndAsserts)
    (hEB : B.EndAsserts) : resolve (P.addBlock B) = Index.addBlock (resolve P) (resolve B) := by
  have hP0 := hEP.prog_ne_nil
  have hB0 := hEB.prog_ne_nil
  cases hne : B.empty
  · rw [addBlock_of_ne hP0 hB0 hne]
    set pend := (P.prog.getLast hP0).1
    set b0 := (B.prog.head hB0).1
    set P' : RoseProgram := ⟨mapUpdateTarget P.prog.dropLast pend b0 ++ B.prog⟩
    have hPptrs : P.ptrs = P.ptrs.dropLast ++ [pend] := by
      conv_lhs => rw [ptrs, ← List.dropLast_append_getLast hP0]
      simp [ptrs, pend, List.map_dropLast]
    have hend : pend ∉ P.ptrs.dropLast := by
      simpa [ptrs, List.map_dropLast] using fst_getLast_not_mem_dropLast hnP hP0
    have hptrs : P'.ptrs = P.ptrs.dropLast ++ B.ptrs := by
      simp [P', ptrs, List.map_dropLast]
    have hnotP : ∀ {t}, t ∈ B.ptrs → t ∉ P.ptrs.dropLast := fun ht h =>
      hd (List.dropLast_sublist _ |>.subset h) ht
    have hPidx : ∀ t ∈ P.ptrs, P'.ptrs.indexOf (if t = pend then b0 else t) = P.ptrs.indexOf t := by
      intro t ht
      have hBne : B.ptrs ≠ [] := by simpa [ptrs] using hB0
      have hb0 : b0 = B.ptrs.head hBne := by simp [b0, ptrs]
      rw [hPptrs] at ht
      rw [hptrs, hb0]
      conv_rhs => rw [hPptrs]
      exact indexOf_append_redirect hBne hend (fun t ht => hnotP ht) ht
    have hBidx : ∀ t ∈ B.ptrs,
        P'.ptrs.indexOf t = B.ptrs.indexOf t + ((resolve P).length - 1) := by
      intro t ht
      rw [hptrs, List.indexOf_append_of_not_mem (hnotP ht)]
      simp [resolve, ptrs]
      omega
    show (P'.prog).map P'.resolveOne = _
    rw [Index.addBlock, resolve, resolve, ← List.map_dropLast]
    simp only [P', List.map_append, mapUpdateTarget, List.map_map]
    refine congrArg₂ (· ++ ·) (List.map_congr_left fun e he => ?_)
      (List.map_congr_left fun e he => ?_)
    · simp only [Function.comp, resolveOne, mapTargets_updateTarget]
      exact RoseInstruction.mapTargets_congr fun t ht =>
        hPidx t (hcP e (List.dropLast_sublist _ |>.subset he) t ht)
    · exact mapTargets_of_eq_comp fun t ht => hBidx t (hcB e he t ht)
  · rw [addBlock_of_empty hne, resolve_of_empty hEB hne, Index.addBlock_end (getLast?_resolve hEP)]

end Resolve

/-! ## Runs -/

/-- What the header asks of `insert(it, ri)` and `add_before_end(ri)`: `it` designates an
instruction, and every target of `ri` is an instruction of the program. -/
def InsertOk (P : RoseProgram) (it : Nat) (ri : InstrPtr × RoseInstruction) : Prop :=
  it < P.size ∧ P.RefersInto ri

/-- What is asked of `replace(it, ri)`: every target of `ri` is an instruction of the
program, and `ri` is an `END` where it replaces the last instruction. -/
def ReplaceOk (P : RoseProgram) (it : Nat) (ri : InstrPtr × RoseInstruction) : Prop :=
  P.RefersInto ri ∧ (it + 1 = P.size → ri.2.code = .roseInstrEnd)

section Runs

variable {P B : RoseProgram}

/-- Under the callers' conditions the targets stay instructions of the program, and the
program ends with its `END`. -/
theorem Reachable.refersInto_ok (h : Reachable InsertOk ReplaceOk P) :
    ∀ x ∈ P.prog, P.RefersInto x :=
  h.refersInto (·.2) (·.1)

theorem Reachable.endAsserts_ok (h : Reachable InsertOk ReplaceOk P) : P.EndAsserts :=
  h.endAsserts (·.1) (·.2)

/-- The squares of the block edits, for programs the mutators built. -/
theorem resolve_insertBlock_of_reachable (k : Nat) (hP : Reachable InsertOk ReplaceOk P)
    (hB : Reachable InsertOk ReplaceOk B) (hd : P.ptrs.Disjoint B.ptrs) (hk : k < P.size) :
    resolve (P.insertBlock k B).1 = Index.insertBlock (resolve P) k (resolve B) :=
  resolve_insertBlock hP.ptrs_nodup hB.ptrs_nodup hP.refersInto_ok hB.refersInto_ok hd hk
    hB.prog_ne_nil

theorem resolve_addBlock_of_reachable (hP : Reachable InsertOk ReplaceOk P)
    (hB : Reachable InsertOk ReplaceOk B) (hd : P.ptrs.Disjoint B.ptrs) :
    resolve (P.addBlock B) = Index.addBlock (resolve P) (resolve B) :=
  resolve_addBlock hP.ptrs_nodup hP.refersInto_ok hB.refersInto_ok hd hP.endAsserts_ok
    hB.endAsserts_ok

end Runs

section Equivalence

variable {R : RecordLayout} {P Q : RoseProgram}

theorem code_resolveOne (P : RoseProgram) (ri : InstrPtr × RoseInstruction) :
    (P.resolveOne ri).code = ri.2.code :=
  RoseInstruction.code_mapTargets _ _

/-- Programs that agree opcode by opcode share the offsets of pass 1. -/
theorem layout_eq_of_forall₂ {S : InstrPtr × RoseInstruction → InstrPtr × RoseInstruction → Prop}
    (h : List.Forall₂ S P.prog Q.prog) (hS : ∀ {a b}, S a b → a.2.code = b.2.code) :
    layoutFrom R 0 (P.prog.map Prod.snd) = layoutFrom R 0 (Q.prog.map Prod.snd) := by
  have hcode : P.prog.map (fun a => a.2.code) = Q.prog.map (fun b => b.2.code) :=
    map_eq_of_forall₂ (h.imp fun _ _ => hS)
  exact layoutFrom_congr R (by simpa only [List.map_map, Function.comp_def] using hcode)

/-- Pass-1 offsets of one program, read at positions up to its size, are one-to-one when they
fit in a `u32`. -/
theorem layout_read_injOn {L : List Nat} (hfit : ∀ off ∈ L, off < 2 ^ 32) (hL : L.Pairwise (· < ·))
    {i j : Nat} (hi : i ≤ L.length) (hj : j ≤ L.length)
    (h : L[i]?.map Nat.toUInt32 = L[j]?.map Nat.toUInt32) : i = j := by
  rcases Nat.lt_or_eq_of_le hi with hi | rfl <;> rcases Nat.lt_or_eq_of_le hj with hj | rfl
  · rw [List.getElem?_eq_getElem hi, List.getElem?_eq_getElem hj, Option.map_some',
      Option.map_some', Option.some.injEq] at h
    exact hL.nodup.getElem_inj_iff.1
      (toUInt32_inj (hfit _ (List.getElem_mem _)) (hfit _ (List.getElem_mem _)) h)
  · simp [List.getElem?_eq_getElem hi] at h
  · simp [List.getElem?_eq_getElem hj] at h
  · rfl

/-- Outside `SPARSE_ITER_BEGIN`, equivalent programs whose offsets fit in a `u32` are the same
position program. -/
theorem resolve_eq_of_roseProgramEquivalence
    (hbP : ∀ x ∈ P.prog, x.2.code ≠ .roseInstrSparseIterBegin)
    (hfit : ∀ off ∈ layoutFrom R 0 (P.prog.map Prod.snd), off < 2 ^ 32)
    (h : roseProgramEquivalence R P Q = some true) : P.resolve = Q.resolve := by
  have hsound : List.Forall₂ (fun a b : InstrPtr × RoseInstruction => a.2.payload = b.2.payload ∧
      a.2.targets.map (P.offsetMap R) = b.2.targets.map (Q.offsetMap R)) P.prog Q.prog :=
    ((List.forall₂_and_left _ _).2 ⟨hbP, roseProgramEquivalence_eq_some_true.1 h⟩).imp
      fun _ _ h => RoseInstruction.equiv_sound h.1 h.2
  have hlay := layout_eq_of_forall₂ (R := R) hsound fun h => by
    rw [← RoseInstruction.code_payload, h.1, RoseInstruction.code_payload]
  have hlen : P.ptrs.length = Q.ptrs.length := by
    simpa [ptrs] using hsound.length_eq
  have hn : P.ptrs.length = (layoutFrom R 0 (P.prog.map Prod.snd)).length := by simp [ptrs]
  refine map_eq_of_forall₂ ((List.forall₂_and_left _ _).2 ⟨hbP, hsound⟩ |>.imp ?_)
  rintro a b ⟨ha, hp, ht⟩
  refine RoseInstruction.mapTargets_eq_of_payload ha hp (map_eq_of_injOn
    (fun i hi j hj => layout_read_injOn hfit (pairwise_layoutFrom R 0 _) (hn ▸ hi) (hn ▸ hj))
    (fun i hi => ?_) (fun i hi => ?_) ?_)
  · obtain ⟨t, -, rfl⟩ := List.mem_map.1 hi
    exact List.indexOf_le_length
  · obtain ⟨t, -, rfl⟩ := List.mem_map.1 hi
    exact hlen ▸ List.indexOf_le_length
  · have hP' : P.offsetMap R = fun t => (layoutFrom R 0 (P.prog.map Prod.snd))[P.ptrs.indexOf t]?.map
        Nat.toUInt32 := funext offsetMap_eq
    have hQ' : Q.offsetMap R = fun t => (layoutFrom R 0 (Q.prog.map Prod.snd))[Q.ptrs.indexOf t]?.map
        Nat.toUInt32 := funext offsetMap_eq
    rw [hP', hQ', ← hlay] at ht
    simpa only [List.map_map, Function.comp_def] using ht

/-- Programs with one position program are equivalent, when their targets are instructions of
their own and the second's addresses are unique. -/
theorem roseProgramEquivalence_of_resolve_eq (hnQ : Q.ptrs.Nodup)
    (hcP : ∀ x ∈ P.prog, P.RefersInto x) (hcQ : ∀ x ∈ Q.prog, Q.RefersInto x)
    (h : P.resolve = Q.resolve) : roseProgramEquivalence R P Q = some true := by
  have hF : List.Forall₂ (fun a b => P.resolveOne a = Q.resolveOne b) P.prog Q.prog := by
    have h' : List.Forall₂ (· = ·) (P.prog.map P.resolveOne) (Q.prog.map Q.resolveOne) := by
      rw [List.forall₂_eq_eq_eq]
      exact h
    exact List.forall₂_map_right_iff.1 (List.forall₂_map_left_iff.1 h')
  have hlay := layout_eq_of_forall₂ (R := R) hF fun h => by
    rw [← code_resolveOne P, h, code_resolveOne]
  have hlen : P.ptrs.length = Q.ptrs.length := by simpa [ptrs] using hF.length_eq
  obtain ⟨-, hzip⟩ := List.forall₂_iff_zip.1 hF
  refine roseProgramEquivalence_eq_some_true.2 (List.forall₂_iff_zip.2 ⟨hF.length_eq, fun {a b} hab => ?_⟩)
  obtain ⟨ha, hb⟩ := List.of_mem_zip hab
  set g : InstrPtr → InstrPtr := fun t => Q.ptrs.getD (P.ptrs.indexOf t) 0
  have hg : ∀ t ∈ P.ptrs, g t ∈ Q.ptrs ∧ Q.ptrs.indexOf (g t) = P.ptrs.indexOf t := by
    intro t ht
    have hi : P.ptrs.indexOf t < Q.ptrs.length := hlen ▸ List.indexOf_lt_length.2 ht
    simp only [g, List.getD_eq_getElem?_getD, List.getElem?_eq_getElem hi, Option.getD_some]
    exact ⟨List.getElem_mem _, List.indexOf_getElem hnQ _ hi⟩
  have hbt : b.2.targets = a.2.targets.map g := by
    have ht := congrArg RoseInstruction.targets (hzip hab)
    simp only [resolveOne, RoseInstruction.targets_mapTargets] at ht
    calc b.2.targets = (b.2.targets.map (Q.ptrs.indexOf ·)).map (Q.ptrs.getD · 0) := by
          rw [List.map_map]
          refine (List.map_congr_left fun t ht => ?_).trans (List.map_id _) |>.symm
          have hi := List.indexOf_lt_length.2 (hcQ b hb t ht)
          simp [List.getD_eq_getElem?_getD, List.getElem?_eq_getElem hi, List.getElem_indexOf hi]
      _ = a.2.targets.map g := by rw [← ht, List.map_map]; rfl
  rw [RoseInstruction.eq_mapTargets_of_mapTargets_eq (hzip hab) hbt]
  have hcov : ∀ t ∈ a.2.targets, (P.offsetMap R t).isSome := fun t ht => offsetMap_isSome (hcP a ha t ht)
  have hsame : ∀ t ∈ a.2.targets, Q.offsetMap R (g t) = P.offsetMap R t := fun t ht => by
    rw [offsetMap_eq, offsetMap_eq, (hg t (hcP a ha t ht)).2, hlay]
  rw [RoseInstruction.equiv_mapTargets a.2 g hcov fun t ht => (hsame t ht).symm ▸ hcov t ht]
  simpa using List.map_congr_left fun t ht => (hsame t ht).symm

/-- **Equivalence is equality of position programs.**  For programs whose targets are their
own instructions, outside `SPARSE_ITER_BEGIN` and with offsets that fit in a `u32`,
`RoseProgramEquivalence` holds exactly when the two programs lay out as the same position
program, whatever their addresses. -/
theorem roseProgramEquivalence_iff_resolve (hnQ : Q.ptrs.Nodup)
    (hcP : ∀ x ∈ P.prog, P.RefersInto x) (hcQ : ∀ x ∈ Q.prog, Q.RefersInto x)
    (hbP : ∀ x ∈ P.prog, x.2.code ≠ .roseInstrSparseIterBegin)
    (hfit : ∀ off ∈ layoutFrom R 0 (P.prog.map Prod.snd), off < 2 ^ 32) :
    roseProgramEquivalence R P Q = some true ↔ P.resolve = Q.resolve :=
  ⟨resolve_eq_of_roseProgramEquivalence hbP hfit, roseProgramEquivalence_of_resolve_eq hnQ hcP hcQ⟩

theorem roseProgramEquivalence_iff_resolve_onlyEod :
    RoseProgram.resolve ⟨[(1, .roseInstrCheckOnlyEod 0), (0, .roseInstrEnd)]⟩ =
        RoseProgram.resolve ⟨[(7, .roseInstrCheckOnlyEod 6), (6, .roseInstrEnd)]⟩ ∧
      roseProgramEquivalence ⟨fun _ => 8, fun _ => 8, fun _ => Nat.succ_pos 7, fun _ => Nat.succ_pos 7⟩
        ⟨[(1, .roseInstrCheckOnlyEod 0), (0, .roseInstrEnd)]⟩
        ⟨[(7, .roseInstrCheckOnlyEod 6), (6, .roseInstrEnd)]⟩ = some true :=
  have h : RoseProgram.resolve ⟨[(1, .roseInstrCheckOnlyEod 0), (0, .roseInstrEnd)]⟩ =
      RoseProgram.resolve ⟨[(7, .roseInstrCheckOnlyEod 6), (6, .roseInstrEnd)]⟩ := rfl
  ⟨h, (roseProgramEquivalence_iff_resolve (by decide) (by decide) (by decide) (by decide)
    (by decide)).2 h⟩

/-- **Splicing keeps equivalence.**  `add_block` of equivalent blocks onto equivalent
programs, all built by the mutators and outside `SPARSE_ITER_BEGIN`, gives equivalent
programs. -/
theorem roseProgramEquivalence_addBlock {P P' B B' : RoseProgram}
    (hP : Reachable InsertOk ReplaceOk P) (hP' : Reachable InsertOk ReplaceOk P')
    (hB : Reachable InsertOk ReplaceOk B) (hB' : Reachable InsertOk ReplaceOk B')
    (hd : P.ptrs.Disjoint B.ptrs) (hd' : P'.ptrs.Disjoint B'.ptrs)
    (hbP : ∀ x ∈ P.prog, x.2.code ≠ .roseInstrSparseIterBegin)
    (hbB : ∀ x ∈ B.prog, x.2.code ≠ .roseInstrSparseIterBegin)
    (hfitP : ∀ off ∈ layoutFrom R 0 (P.prog.map Prod.snd), off < 2 ^ 32)
    (hfitB : ∀ off ∈ layoutFrom R 0 (B.prog.map Prod.snd), off < 2 ^ 32)
    (hPP : roseProgramEquivalence R P P' = some true)
    (hBB : roseProgramEquivalence R B B' = some true) :
    roseProgramEquivalence R (P.addBlock B) (P'.addBlock B') = some true := by
  have hC := Reachable.addBlock hP hB hd
  have hC' := Reachable.addBlock hP' hB' hd'
  refine roseProgramEquivalence_of_resolve_eq hC'.ptrs_nodup hC.refersInto_ok hC'.refersInto_ok ?_
  rw [resolve_addBlock_of_reachable hP hB hd, resolve_addBlock_of_reachable hP' hB' hd',
    resolve_eq_of_roseProgramEquivalence hbP hfitP hPP, resolve_eq_of_roseProgramEquivalence hbB hfitB hBB]

theorem roseProgramEquivalence_addBlock_onlyEod :
    roseProgramEquivalence ⟨fun _ => 8, fun _ => 8, fun _ => Nat.succ_pos 7, fun _ => Nat.succ_pos 7⟩
      (((RoseProgram.init 0).addBeforeEnd (1, .roseInstrCheckOnlyEod 0)).addBlock
        ((RoseProgram.init 2).addBeforeEnd (3, .roseInstrCheckOnlyEod 2)))
      (((RoseProgram.init 5).addBeforeEnd (6, .roseInstrCheckOnlyEod 5)).addBlock
        ((RoseProgram.init 7).addBeforeEnd (8, .roseInstrCheckOnlyEod 7))) = some true :=
  roseProgramEquivalence_addBlock (.addBeforeEnd (.init 0) (by decide) ⟨by decide, by decide⟩)
    (.addBeforeEnd (.init 5) (by decide) ⟨by decide, by decide⟩)
    (.addBeforeEnd (.init 2) (by decide) ⟨by decide, by decide⟩)
    (.addBeforeEnd (.init 7) (by decide) ⟨by decide, by decide⟩)
    (List.disjoint_left.2 (by decide)) (List.disjoint_left.2 (by decide)) (by decide) (by decide)
    (by decide) (by decide) (by decide) (by decide)

/-- **Inserting a block keeps equivalence.**  `insert(it, block)` of equivalent blocks at one
position of equivalent programs, all built by the mutators and outside
`SPARSE_ITER_BEGIN`, gives equivalent programs. -/
theorem roseProgramEquivalence_insertBlock (k : Nat) {P P' B B' : RoseProgram}
    (hP : Reachable InsertOk ReplaceOk P) (hP' : Reachable InsertOk ReplaceOk P')
    (hB : Reachable InsertOk ReplaceOk B) (hB' : Reachable InsertOk ReplaceOk B')
    (hd : P.ptrs.Disjoint B.ptrs) (hd' : P'.ptrs.Disjoint B'.ptrs)
    (hbP : ∀ x ∈ P.prog, x.2.code ≠ .roseInstrSparseIterBegin)
    (hbB : ∀ x ∈ B.prog, x.2.code ≠ .roseInstrSparseIterBegin)
    (hfitP : ∀ off ∈ layoutFrom R 0 (P.prog.map Prod.snd), off < 2 ^ 32)
    (hfitB : ∀ off ∈ layoutFrom R 0 (B.prog.map Prod.snd), off < 2 ^ 32)
    (hPP : roseProgramEquivalence R P P' = some true)
    (hBB : roseProgramEquivalence R B B' = some true) :
    roseProgramEquivalence R (P.insertBlock k B).1 (P'.insertBlock k B').1 = some true := by
  have hsize : P.size = P'.size := (roseProgramEquivalence_eq_some_true.1 hPP).length_eq
  by_cases hk : k < P.size
  · have hC := Reachable.insertBlock k hP hB hd
    have hC' := Reachable.insertBlock k hP' hB' hd'
    refine roseProgramEquivalence_of_resolve_eq hC'.ptrs_nodup hC.refersInto_ok hC'.refersInto_ok ?_
    rw [resolve_insertBlock_of_reachable k hP hB hd hk,
      resolve_insertBlock_of_reachable k hP' hB' hd' (hsize ▸ hk),
      resolve_eq_of_roseProgramEquivalence hbP hfitP hPP,
      resolve_eq_of_roseProgramEquivalence hbB hfitB hBB]
  · rcases insertBlock_cases P B k with h | ⟨hk', -, -⟩
    · rcases insertBlock_cases P' B' k with h' | ⟨hk'', -, -⟩
      · rwa [h, h']
      · exact absurd (hsize ▸ hk'') hk
    · exact absurd hk' hk

theorem roseProgramEquivalence_insertBlock_onlyEod :
    roseProgramEquivalence ⟨fun _ => 8, fun _ => 8, fun _ => Nat.succ_pos 7, fun _ => Nat.succ_pos 7⟩
      (((RoseProgram.init 0).addBeforeEnd (1, .roseInstrCheckOnlyEod 0)).insertBlock 0
        ((RoseProgram.init 2).addBeforeEnd (3, .roseInstrCheckOnlyEod 2))).1
      (((RoseProgram.init 5).addBeforeEnd (6, .roseInstrCheckOnlyEod 5)).insertBlock 0
        ((RoseProgram.init 7).addBeforeEnd (8, .roseInstrCheckOnlyEod 7))).1 = some true :=
  roseProgramEquivalence_insertBlock 0 (.addBeforeEnd (.init 0) (by decide) ⟨by decide, by decide⟩)
    (.addBeforeEnd (.init 5) (by decide) ⟨by decide, by decide⟩)
    (.addBeforeEnd (.init 2) (by decide) ⟨by decide, by decide⟩)
    (.addBeforeEnd (.init 7) (by decide) ⟨by decide, by decide⟩)
    (List.disjoint_left.2 (by decide)) (List.disjoint_left.2 (by decide)) (by decide) (by decide)
    (by decide) (by decide) (by decide) (by decide)

end Equivalence

end RoseProgram

end Rose
