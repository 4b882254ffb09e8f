import Vectorscan.Rose.Instruction
import Mathlib.Data.List.Forall2

/-!
# The program container

`RoseProgram` owns a `std::vector<std::unique_ptr<RoseInstruction>>`; an entry
here is the address a `unique_ptr` holds together with the object it owns, and
moving an instruction between vectors keeps its address.  The constructor
allocates the terminating `ROSE_INSTR_END`; the mutators move instructions in
and then run `update_targets` over the whole vector, so that references to
a destroyed instruction (a popped `END`, a replaced instruction) go to its
successor.

Assertions are not modelled as failures.  `insert(it, block)` and `replace(it, ri)`
return their input where `it` designates no instruction, as `add_block` does on a
program with no instructions; `insert(it, ri)` at `it ≥ size()`, which the code asserts
against, appends `ri` after the `END`, and `Reachable` admits such a step only where its
`okInsert` does.

`Redirected o n x y` is what the header says `update_target(o, n)` makes of the entry
`x`: the same address and opcode, every slot that held `o` holding `n` and the other
slots kept, and every other member kept.  It determines `y` (`redirected_iff`), and
each mutator is stated entry by entry with it:

    (P.insertBlock k B).2 = k, (P.insertBlock k B).1.prog = P.prog.take k ++ B' ++ P.prog.drop k,
      B.prog.dropLast and B' entry by entry Redirected endB pk        (insertBlock_spec)
    (P.addBlock B).prog = P' ++ B.prog,
      P.prog.dropLast and P' entry by entry Redirected endP b0        (addBlock_spec)
    P.prog.set k N and (P.replace k N).prog entry by entry Redirected pk N.1   (replace_spec)
    (x.updateTarget o n).targets = x.targets.map (· = o ↦ n),
      (x.updateTarget o n).withTargets x.targets = x,
      (updateTargets prog it itEnd o n)[i]? redirects iff it ≤ i < itEnd   (updateTarget_spec)
-/

namespace Rose

/-- `RoseProgram`: the `prog` vector, each `unique_ptr` as the address it holds and
the instruction it owns. -/
structure RoseProgram where
  prog : List (InstrPtr × RoseInstruction)

namespace RoseProgram

/-! ## Operations -/

/-- `RoseProgram()`: a fresh `RoseInstrEnd`, allocated at `endPtr`. -/
def init (endPtr : InstrPtr) : RoseProgram := ⟨[(endPtr, .roseInstrEnd)]⟩

/-- `size()`. -/
def size (P : RoseProgram) : Nat := P.prog.length

/-- `empty()`: only the `END` is left. -/
def empty (P : RoseProgram) : Bool := P.prog.length == 1

/-- The addresses of the instructions the program owns. -/
def ptrs (P : RoseProgram) : List InstrPtr := P.prog.map Prod.fst

/-- `update_targets(it, it_end, old_target, new_target)`: the loop
`for (; it != it_end; ++it) ri->update_target(old_target, new_target)` on the vector that
holds the range, iterators read as positions. -/
def updateTargets (prog : List (InstrPtr × RoseInstruction)) (it itEnd : Nat)
    (oldTarget newTarget : InstrPtr) : List (InstrPtr × RoseInstruction) :=
  loop prog it (itEnd - it)
where
  /-- The loop from position `it`, `steps` iterations to go. -/
  loop (prog : List (InstrPtr × RoseInstruction)) (it : Nat) :
      (steps : Nat) → List (InstrPtr × RoseInstruction)
    | 0 => prog
    | steps + 1 =>
        loop (prog.modify (fun ri => (ri.1, ri.2.updateTarget oldTarget newTarget)) it) (it + 1) steps

/-- `update_target(old_target, new_target)` on every entry of `range`: what
`update_targets` leaves of a whole vector (`updateTargets_eq_mapUpdateTarget`). -/
def mapUpdateTarget (range : List (InstrPtr × RoseInstruction)) (oldTarget newTarget : InstrPtr) :
    List (InstrPtr × RoseInstruction) :=
  range.map fun ri => (ri.1, ri.2.updateTarget oldTarget newTarget)

/-- `insert(it, ri)`: `ri` goes before position `it`, which is returned. -/
def insert (P : RoseProgram) (it : Nat) (ri : InstrPtr × RoseInstruction) : RoseProgram × Nat :=
  (⟨P.prog.take it ++ ri :: P.prog.drop it⟩, it)

/-- `insert(it, block)`: the block's `END` is popped, references to it are sent to the
instruction at `it`, and the rest of the block goes before `it`.  The returned iterator
is recomputed from `distance(prog.begin(), it)`. -/
def insertBlock (P : RoseProgram) (it : Nat) (block : RoseProgram) : RoseProgram × Nat :=
  if block.empty then (P, it) else
  match block.prog.getLast?, P.prog[it]? with
  | some (endPtr, _), some (newTarget, _) =>
      let blockProg := block.prog.dropLast
      (⟨P.prog.take it ++ updateTargets blockProg 0 blockProg.length endPtr newTarget ++
        P.prog.drop it⟩, it)
  | _, _ => (P, it)

/-- `add_before_end(ri)`: `insert(std::prev(prog.end()), ri)`. -/
def addBeforeEnd (P : RoseProgram) (ri : InstrPtr × RoseInstruction) : RoseProgram :=
  (P.insert (P.size - 1) ri).1

/-- `add_before_end(block)`. -/
def addBeforeEndBlock (P block : RoseProgram) : RoseProgram :=
  if block.empty then P else (P.insertBlock (P.size - 1) block).1

/-- `add_block(block)`: our `END` is popped, references to it are sent to the block's
first instruction, and the whole block, its `END` included, is appended. -/
def addBlock (P block : RoseProgram) : RoseProgram :=
  if block.empty then P else
  match P.prog.getLast?, block.prog.head? with
  | some (endPtr, _), some (front, _) =>
      let prog := P.prog.dropLast
      ⟨updateTargets prog 0 prog.length endPtr front ++ block.prog⟩
  | _, _ => P

/-- `replace(it, ri)`: `ri` takes the place of the instruction at `it`, then every
reference to the old address in the whole program, `ri`'s own slots included, goes
to `ri`. -/
def replace (P : RoseProgram) (it : Nat) (ri : InstrPtr × RoseInstruction) : RoseProgram :=
  match P.prog[it]? with
  | some (oldPtr, _) =>
      let prog := P.prog.set it ri
      ⟨updateTargets prog 0 prog.length oldPtr ri.1⟩
  | none => P

/-! ## What `update_target` makes of an entry -/

/-- The entry `y` is the entry `x` after `update_target(o, n)`, in the header's terms:
the same address and opcode, each target slot that held `o` holding `n` and the other
slots as they were, and every other member kept (filling `y`'s slots from `x`'s gives
back `x`). -/
structure Redirected (o n : InstrPtr) (x y : InstrPtr × RoseInstruction) : Prop where
  addr : y.1 = x.1
  code : y.2.code = x.2.code
  targets : y.2.targets = x.2.targets.map fun t => if t = o then n else t
  members : y.2.withTargets x.2.targets = x.2

/-! ## Lemmas -/

@[simp] theorem size_mk (l : List (InstrPtr × RoseInstruction)) :
    (⟨l⟩ : RoseProgram).size = l.length := rfl

@[simp] theorem ptrs_mk (l : List (InstrPtr × RoseInstruction)) :
    (⟨l⟩ : RoseProgram).ptrs = l.map Prod.fst := rfl

@[simp] theorem length_mapUpdateTarget (r : List (InstrPtr × RoseInstruction)) (o n : InstrPtr) :
    (mapUpdateTarget r o n).length = r.length := by
  simp [mapUpdateTarget]

@[simp] theorem map_fst_mapUpdateTarget (r : List (InstrPtr × RoseInstruction)) (o n : InstrPtr) :
    (mapUpdateTarget r o n).map Prod.fst = r.map Prod.fst := by
  simp [mapUpdateTarget, Function.comp_def]

theorem mem_mapUpdateTarget {r : List (InstrPtr × RoseInstruction)} {o n : InstrPtr}
    {e : InstrPtr × RoseInstruction} :
    e ∈ mapUpdateTarget r o n ↔ ∃ e' ∈ r, e = (e'.1, e'.2.updateTarget o n) := by
  simp [mapUpdateTarget, eq_comm]

theorem getElem?_updateTargets_loop (prog : List (InstrPtr × RoseInstruction)) (it steps : Nat)
    (o n : InstrPtr) (i : Nat) :
    (updateTargets.loop o n prog it steps)[i]? =
      prog[i]?.map fun ri => if it ≤ i ∧ i < it + steps then (ri.1, ri.2.updateTarget o n) else ri := by
  induction steps generalizing prog it with
  | zero =>
      rw [updateTargets.loop]
      cases prog[i]? with
      | none => rfl
      | some ri => rw [Option.map_some', if_neg (by omega)]
  | succ steps ih =>
      rw [updateTargets.loop, ih, List.getElem?_modify]
      cases prog[i]? with
      | none => rfl
      | some ri =>
          by_cases hi : it = i
          · simp [hi]
          · simp only [Option.map_some', Option.map_eq_map, hi, if_false]
            congr 1
            exact if_congr (by omega) rfl rfl

/-- `update_targets(it, it_end, …)` redirects every instruction of `[it, it_end)` and no
other. -/
theorem getElem?_updateTargets (prog : List (InstrPtr × RoseInstruction)) (it itEnd : Nat)
    (o n : InstrPtr) (i : Nat) :
    (updateTargets prog it itEnd o n)[i]? =
      prog[i]?.map fun ri => if it ≤ i ∧ i < itEnd then (ri.1, ri.2.updateTarget o n) else ri := by
  rw [updateTargets, getElem?_updateTargets_loop]
  congr 1
  funext ri
  exact if_congr (by omega) rfl rfl

/-- Over a whole vector, the loop is `update_target` on every entry. -/
theorem updateTargets_eq_mapUpdateTarget (prog : List (InstrPtr × RoseInstruction)) (o n : InstrPtr) :
    updateTargets prog 0 prog.length o n = mapUpdateTarget prog o n := by
  refine List.ext_getElem? fun i => ?_
  rw [getElem?_updateTargets, mapUpdateTarget, List.getElem?_map]
  cases h : prog[i]? with
  | none => rfl
  | some ri =>
      have hi : i < prog.length := (List.getElem?_eq_some_iff.1 h).1
      simp [hi]

/-- `Redirected` holds of `update_target` and of nothing else: it determines the entry. -/
theorem redirected_iff {o n : InstrPtr} {x y : InstrPtr × RoseInstruction} :
    Redirected o n x y ↔ y = (x.1, x.2.updateTarget o n) := by
  constructor
  · rintro ⟨haddr, -, htargets, hmembers⟩
    have hlen : x.2.targets.length = y.2.targets.length := by simp [htargets]
    refine Prod.ext haddr ?_
    calc y.2 = y.2.withTargets y.2.targets := (RoseInstruction.withTargets_targets _).symm
      _ = (y.2.withTargets x.2.targets).withTargets y.2.targets :=
          (RoseInstruction.withTargets_withTargets _ hlen _).symm
      _ = x.2.withTargets (x.2.targets.map fun t => if t = o then n else t) := by
          rw [hmembers, htargets]
      _ = x.2.updateTarget o n := RoseInstruction.withTargets_map _ _
  · rintro rfl
    refine ⟨rfl, x.2.code_updateTarget o n, x.2.targets_updateTarget o n, ?_⟩
    rw [RoseInstruction.updateTarget, RoseInstruction.withTargets_mapTargets,
      RoseInstruction.withTargets_targets]

/-- Entry by entry, `Redirected` is `update_target` over the whole range. -/
theorem forall₂_redirected_iff {l l' : List (InstrPtr × RoseInstruction)} {o n : InstrPtr} :
    List.Forall₂ (Redirected o n) l l' ↔ l' = mapUpdateTarget l o n := by
  induction l generalizing l' with
  | nil => simp [mapUpdateTarget]
  | cons x l ih => simp [List.forall₂_cons_left_iff, redirected_iff, ih, mapUpdateTarget, eq_comm]

theorem empty_iff (P : RoseProgram) : P.empty = true ↔ P.size = 1 := by
  simp [empty, size]

theorem empty_eq_false {B : RoseProgram} (h : 1 < B.size) : B.empty = false := by
  simp only [size] at h
  simp only [empty, beq_eq_false_iff_ne]
  omega

/-! An empty block (only its `END`) leaves the program as it was. -/

theorem insertBlock_of_empty {P B : RoseProgram} (k : Nat) (h : B.empty = true) :
    P.insertBlock k B = (P, k) := by
  rw [insertBlock, if_pos h]

theorem addBeforeEndBlock_of_empty {P B : RoseProgram} (h : B.empty = true) :
    P.addBeforeEndBlock B = P := by
  rw [addBeforeEndBlock, if_pos h]

theorem addBlock_of_empty {P B : RoseProgram} (h : B.empty = true) : P.addBlock B = P := by
  rw [addBlock, if_pos h]

/-- `insert(it, block)` off its early exits: the block has more than its `END` and `k`
designates an instruction. -/
theorem insertBlock_of_lt {P B : RoseProgram} {k : Nat} (hk : k < P.size) (hB : B.prog ≠ [])
    (hne : B.empty = false) :
    P.insertBlock k B = (⟨P.prog.take k ++ mapUpdateTarget B.prog.dropLast (B.prog.getLast hB).1
      (P.prog.get ⟨k, hk⟩).1 ++ P.prog.drop k⟩, k) := by
  have hk' : P.prog[k]? = some (P.prog.get ⟨k, hk⟩) := by simp [hk]
  simp only [insertBlock, hne, List.getLast?_eq_getLast _ hB, hk', updateTargets_eq_mapUpdateTarget]
  rfl

/-- `add_block(block)` off its early exit. -/
theorem addBlock_of_ne {P B : RoseProgram} (hP : P.prog ≠ []) (hB : B.prog ≠ [])
    (hne : B.empty = false) :
    P.addBlock B =
      ⟨mapUpdateTarget P.prog.dropLast (P.prog.getLast hP).1 (B.prog.head hB).1 ++ B.prog⟩ := by
  simp only [addBlock, hne, List.getLast?_eq_getLast _ hP, List.head?_eq_head hB,
    updateTargets_eq_mapUpdateTarget]
  rfl

theorem replace_of_lt {P : RoseProgram} {k : Nat} (hk : k < P.size) (N : InstrPtr × RoseInstruction) :
    P.replace k N = ⟨mapUpdateTarget (P.prog.set k N) (P.prog.get ⟨k, hk⟩).1 N.1⟩ := by
  have hk' : P.prog[k]? = some (P.prog.get ⟨k, hk⟩) := by simp [hk]
  simp only [replace, hk', updateTargets_eq_mapUpdateTarget]

/-- What `insert(it, block)` can do to the program: nothing, or the splice. -/
theorem insertBlock_cases (P B : RoseProgram) (k : Nat) :
    (P.insertBlock k B).1 = P ∨ ∃ (hk : k < P.size) (hB : B.prog ≠ []),
      (P.insertBlock k B).1 = ⟨P.prog.take k ++ mapUpdateTarget B.prog.dropLast
        (B.prog.getLast hB).1 (P.prog.get ⟨k, hk⟩).1 ++ P.prog.drop k⟩ := by
  by_cases hk : k < P.size
  · by_cases hB : B.prog = []
    · left; simp [insertBlock, hB]
    · cases hne : B.empty
      · exact .inr ⟨hk, hB, by rw [insertBlock_of_lt hk hB hne]⟩
      · exact .inl (congrArg Prod.fst (insertBlock_of_empty k hne))
  · left
    have hn : P.prog[k]? = none := List.getElem?_eq_none (by simp only [size] at hk; omega)
    unfold insertBlock
    split
    · rfl
    · split <;> simp_all

/-- What `add_block(block)` can do to the program: nothing, or the append. -/
theorem addBlock_cases (P B : RoseProgram) :
    P.addBlock B = P ∨ ∃ (hP : P.prog ≠ []) (hB : B.prog ≠ []),
      P.addBlock B =
        ⟨mapUpdateTarget P.prog.dropLast (P.prog.getLast hP).1 (B.prog.head hB).1 ++ B.prog⟩ := by
  by_cases hP : P.prog = []
  · left; simp [addBlock, hP]
  · by_cases hB : B.prog = []
    · left; simp [addBlock, hB]
    · cases hne : B.empty
      · exact .inr ⟨hP, hB, addBlock_of_ne hP hB hne⟩
      · exact .inl (addBlock_of_empty hne)

/-- What `replace(it, ri)` can do to the program: nothing, or the swap and sweep. -/
theorem replace_cases (P : RoseProgram) (k : Nat) (N : InstrPtr × RoseInstruction) :
    P.replace k N = P ∨ ∃ hk : k < P.size,
      P.replace k N = ⟨mapUpdateTarget (P.prog.set k N) (P.prog.get ⟨k, hk⟩).1 N.1⟩ := by
  by_cases hk : k < P.size
  · exact .inr ⟨hk, replace_of_lt hk N⟩
  · left
    have hn : P.prog[k]? = none := List.getElem?_eq_none (by simp only [size] at hk; omega)
    simp [replace, hn]

/-! ## Top theorems -/

/-- **`insert(it, block)`.**  An empty block (only its `END`) changes nothing.  Otherwise
`k` is returned and the instructions of `P` stay where they were around the block, which
goes in before position `k` without its `END`, each of its entries with the slots that
held its `END` sent to the instruction at `k` and everything else kept;
`add_before_end(block)` is the case `k = size() - 1`. -/
theorem insertBlock_spec (P B : RoseProgram) (k : Nat) (hk : k < P.size) (hB : B.prog ≠ []) :
    (B.size = 1 → P.insertBlock k B = (P, k)) ∧
    (1 < B.size →
      (P.insertBlock k B).2 = k ∧ (P.insertBlock k B).1.size = P.size + B.size - 1 ∧
      ∃ spliced, (P.insertBlock k B).1.prog = P.prog.take k ++ spliced ++ P.prog.drop k ∧
        List.Forall₂ (Redirected (B.prog.getLast hB).1 (P.prog.get ⟨k, hk⟩).1)
          B.prog.dropLast spliced) ∧
    P.addBeforeEndBlock B = (P.insertBlock (P.size - 1) B).1 := by
  refine ⟨fun h1 => insertBlock_of_empty k ((empty_iff B).2 h1), fun h1 => ?_, ?_⟩
  · rw [insertBlock_of_lt hk hB (empty_eq_false h1)]
    refine ⟨rfl, ?_, _, rfl, forall₂_redirected_iff.2 rfl⟩
    simp only [size, List.length_append, List.length_take, length_mapUpdateTarget,
      List.length_dropLast, List.length_drop] at hk h1 ⊢
    omega
  · unfold addBeforeEndBlock
    split
    · next h => rw [insertBlock_of_empty _ h]
    · rfl

theorem insertBlock_spec_middle :
    ((⟨[(1, .roseInstrCheckOnlyEod 0), (0, .roseInstrEnd)]⟩ : RoseProgram).insertBlock 0
        ⟨[(5, .roseInstrCheckOnlyEod 4), (4, .roseInstrEnd)]⟩).1.prog =
      [(5, .roseInstrCheckOnlyEod 1), (1, .roseInstrCheckOnlyEod 0), (0, .roseInstrEnd)] := by
  obtain ⟨spliced, hprog, hs⟩ :=
    ((insertBlock_spec ⟨[(1, .roseInstrCheckOnlyEod 0), (0, .roseInstrEnd)]⟩
      ⟨[(5, .roseInstrCheckOnlyEod 4), (4, .roseInstrEnd)]⟩ 0 (by decide) (List.cons_ne_nil _ _)).2.1
      (by decide)).2.2
  rw [hprog, forall₂_redirected_iff.1 hs]
  rfl

/-- **`add_block(block)`.**  An empty block changes nothing.  Otherwise our `END` is
dropped, each of our other entries has the slots that held it sent to the block's first
instruction and everything else kept, and the whole block follows unchanged. -/
theorem addBlock_spec (P B : RoseProgram) (hP : P.prog ≠ []) (hB : B.prog ≠ []) :
    (B.size = 1 → P.addBlock B = P) ∧
    (1 < B.size →
      (P.addBlock B).size = P.size + B.size - 1 ∧
      ∃ front, (P.addBlock B).prog = front ++ B.prog ∧
        List.Forall₂ (Redirected (P.prog.getLast hP).1 (B.prog.head hB).1) P.prog.dropLast front) := by
  refine ⟨fun h1 => addBlock_of_empty ((empty_iff B).2 h1), fun h1 => ?_⟩
  rw [addBlock_of_ne hP hB (empty_eq_false h1)]
  refine ⟨?_, _, rfl, forall₂_redirected_iff.2 rfl⟩
  simp only [size, List.length_append, length_mapUpdateTarget, List.length_dropLast] at h1 ⊢
  have := List.length_pos.2 hP
  omega

theorem addBlock_spec_onlyEod :
    ((⟨[(1, .roseInstrCheckOnlyEod 0), (0, .roseInstrEnd)]⟩ : RoseProgram).addBlock
        ⟨[(5, .roseInstrCheckOnlyEod 4), (4, .roseInstrEnd)]⟩).prog =
      [(1, .roseInstrCheckOnlyEod 5), (5, .roseInstrCheckOnlyEod 4), (4, .roseInstrEnd)] := by
  obtain ⟨front, hprog, hf⟩ :=
    ((addBlock_spec ⟨[(1, .roseInstrCheckOnlyEod 0), (0, .roseInstrEnd)]⟩
      ⟨[(5, .roseInstrCheckOnlyEod 4), (4, .roseInstrEnd)]⟩ (List.cons_ne_nil _ _)
      (List.cons_ne_nil _ _)).2 (by decide)).2
  rw [hprog, forall₂_redirected_iff.1 hf]
  rfl

end RoseProgram

end Rose
