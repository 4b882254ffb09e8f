import Vectorscan.Rose.Reachable

/-!
# Program equivalence

`RoseProgramEquivalence` is declared in `rose_build_program.h`; its body lives in
`rose_build_program.cpp`, which is not in the repository, so it is modelled from the spec:
programs of one size whose instructions are pairwise `equiv` under the offset maps that
pass 1 of the assembler gives each program.  The record sizes and alignments are declared
in `rose_program.h`, so they are the parameter `R`.

On programs whose targets are instructions of their own (`ClosedProgram`) this is an
equivalence relation, it does not see where the instructions were allocated, and it keeps
the program hash wherever no `SPARSE_ITER_BEGIN` is involved:

    Equivalence (fun P Q : ClosedProgram => roseProgramEquivalence R P.1 Q.1 = some true)
                                                          (roseProgramEquivalence_equivalence)
    P closed → g one-to-one on P.ptrs →
      roseProgramEquivalence R P (P.relocate g) = some true   (roseProgramEquivalence_relocate)
    roseProgramEquivalence R P Q = some true → no SPARSE_ITER_BEGIN in P →
      roseProgramHash opcode P = roseProgramHash opcode Q     (roseProgramHash_of_equivalence)
-/

namespace Rose

/-! ## Layout and equivalence -/

/-- Modelled from the spec: the size and the alignment of each opcode's bytecode record,
fixed by the structures of `rose_program.h`.  Every record holds at least its opcode byte,
and every alignment is positive. -/
structure RecordLayout where
  byteLength : RoseInstructionCode → Nat
  alignment : RoseInstructionCode → Nat
  byteLength_pos : ∀ c, 0 < byteLength c
  alignment_pos : ∀ c, 0 < alignment c

/-- Modelled from the spec: `total` rounded up to a multiple of `a`. -/
def alignUp (a total : Nat) : Nat := (total + (a - 1)) / a * a

/-- Modelled from the spec: pass 1 of the assembler from the running total `total`.  Each
instruction's offset is the running total aligned up to its opcode's alignment, and the
total then grows by the size of its record. -/
def layoutFrom (R : RecordLayout) (total : Nat) : List RoseInstruction → List Nat
  | [] => []
  | x :: rest =>
      let offset := alignUp (R.alignment x.code) total
      offset :: layoutFrom R (offset + R.byteLength x.code) rest

namespace RoseProgram

/-- Modelled from the spec: the `offset_map` of pass 1, from each instruction's address to its
offset as a `u32`; `none` off the program, where `at` throws. -/
def offsetMap (R : RecordLayout) (P : RoseProgram) : OffsetMap := fun p =>
  ((P.ptrs.zip (layoutFrom R 0 (P.prog.map Prod.snd))).lookup p).map Nat.toUInt32

/-- The same program allocated elsewhere: each address `p`, of an entry or in a slot,
becomes `g p`. -/
def relocate (g : InstrPtr → InstrPtr) (P : RoseProgram) : RoseProgram :=
  ⟨P.prog.map fun ri => (g ri.1, ri.2.mapTargets g)⟩

end RoseProgram

/-- Modelled from the spec: `RoseProgramEquivalence::operator()`.  `false` for programs of
different sizes; otherwise `std::equal` of the two programs with `equiv` under each
program's own offset map, stopping at the first pair that is not equivalent. -/
def roseProgramEquivalence (R : RecordLayout) (prog1 prog2 : RoseProgram) : Option Bool :=
  if prog1.size ≠ prog2.size then pure false
  else (prog1.prog.zip prog2.prog).allM fun ri =>
    ri.1.2.equiv ri.2.2 (prog1.offsetMap R) (prog2.offsetMap R)

/-- A program whose targets are all instructions of it. -/
def ClosedProgram : Type := {P : RoseProgram // ∀ x ∈ P.prog, P.RefersInto x}

/-! ## Lemmas -/

theorem allM_eq_some_true {α : Type} {f : α → Option Bool} :
    ∀ {l : List α}, l.allM f = some true ↔ ∀ x ∈ l, f x = some true
  | [] => by simp
  | a :: l => by
    cases h : f a with
    | none => simp [List.allM, h]
    | some b => cases b <;> simp [List.allM, h, allM_eq_some_true]

theorem forall₂_trans {α : Type} {R S T : α → α → Prop}
    (ht : ∀ a b c, R a b → S b c → T a c) :
    ∀ {l₁ l₂ l₃ : List α}, List.Forall₂ R l₁ l₂ → List.Forall₂ S l₂ l₃ → List.Forall₂ T l₁ l₃
  | _, _, _, .nil, .nil => .nil
  | _, _, _, .cons h₁ t₁, .cons h₂ t₂ => .cons (ht _ _ _ h₁ h₂) (forall₂_trans ht t₁ t₂)

@[simp] theorem length_layoutFrom (R : RecordLayout) :
    ∀ (total : Nat) (l : List RoseInstruction), (layoutFrom R total l).length = l.length
  | _, [] => rfl
  | _, _ :: l => congrArg (· + 1) (length_layoutFrom R _ l)

/-- Pass 1 reads only the opcodes. -/
theorem layoutFrom_congr (R : RecordLayout) :
    ∀ {total : Nat} {l l' : List RoseInstruction},
      l.map RoseInstruction.code = l'.map RoseInstruction.code → layoutFrom R total l = layoutFrom R total l'
  | _, [], [], _ => rfl
  | _, x :: l, y :: l', h => by
    simp only [List.map_cons, List.cons.injEq] at h
    simp only [layoutFrom, h.1, layoutFrom_congr R h.2]
  | _, [], _ :: _, h | _, _ :: _, [], h => by simp at h

theorem le_alignUp {a : Nat} (ha : 0 < a) (total : Nat) : total ≤ alignUp a total := by
  have hdiv := Nat.div_add_mod (total + (a - 1)) a
  have hmod := Nat.mod_lt (total + (a - 1)) ha
  rw [Nat.mul_comm] at hdiv
  unfold alignUp
  generalize (total + (a - 1)) / a * a = p at hdiv ⊢
  generalize (total + (a - 1)) % a = r at hdiv hmod
  omega

theorem le_of_mem_layoutFrom (R : RecordLayout) :
    ∀ {total : Nat} {l : List RoseInstruction} {o : Nat}, o ∈ layoutFrom R total l → total ≤ o
  | _, [], _, h => absurd h (List.not_mem_nil _)
  | total, x :: l, o, h => by
    have hx := le_alignUp (R.alignment_pos x.code) total
    simp only [layoutFrom, List.mem_cons] at h
    rcases h with rfl | h
    · exact hx
    · have := le_of_mem_layoutFrom R h
      omega

/-- **Pass 1 gives distinct instructions distinct offsets**: the offsets strictly increase. -/
theorem pairwise_layoutFrom (R : RecordLayout) :
    ∀ (total : Nat) (l : List RoseInstruction), (layoutFrom R total l).Pairwise (· < ·)
  | _, [] => List.Pairwise.nil
  | total, x :: l => by
    simp only [layoutFrom]
    refine List.Pairwise.cons (fun o ho => ?_) (pairwise_layoutFrom R _ l)
    have := le_of_mem_layoutFrom R ho
    have := R.byteLength_pos x.code
    omega

/-- Over keys and values of one length, `lookup` reads the value at the key's first index. -/
theorem lookup_zip_eq {a : Nat} :
    ∀ {l m : List Nat}, l.length = m.length → (l.zip m).lookup a = m[l.indexOf a]?
  | [], [], _ => rfl
  | k :: l, b :: m, h => by
    by_cases hk : k = a
    · simp [hk]
    · rw [List.zip_cons_cons, List.lookup_cons, beq_false_of_ne (Ne.symm hk),
        List.indexOf_cons_ne _ hk, List.getElem?_cons_succ, lookup_zip_eq (by simpa using h)]
  | [], _ :: _, h | _ :: _, [], h => by simp at h

theorem toUInt32_inj {a b : Nat} (ha : a < 2 ^ 32) (hb : b < 2 ^ 32)
    (h : a.toUInt32 = b.toUInt32) : a = b := by
  have := congrArg UInt32.toNat h
  rwa [UInt32.toNat_ofNat_of_lt ha, UInt32.toNat_ofNat_of_lt hb] at this

/-- Lists that agree after `φ`, which is one-to-one on the numbers up to `n`, agree. -/
theorem map_eq_of_injOn {φ : Nat → Option UInt32} {n : Nat}
    (hφ : ∀ i ≤ n, ∀ j ≤ n, φ i = φ j → i = j) :
    ∀ {l l' : List Nat}, (∀ i ∈ l, i ≤ n) → (∀ i ∈ l', i ≤ n) → l.map φ = l'.map φ → l = l'
  | [], [], _, _, _ => rfl
  | i :: l, j :: l', hl, hl', h => by
    simp only [List.map_cons, List.cons.injEq] at h
    simp only [List.mem_cons, forall_eq_or_imp] at hl hl'
    rw [hφ i hl.1 j hl'.1 h.1, map_eq_of_injOn hφ hl.2 hl'.2 h.2]
  | [], _ :: _, _, _, h | _ :: _, [], _, _, h => by simp at h

theorem map_eq_of_forall₂ {α β γ : Type} {f : α → γ} {g : β → γ} :
    ∀ {l : List α} {l' : List β}, List.Forall₂ (fun a b => f a = g b) l l' → l.map f = l'.map g
  | _, _, .nil => rfl
  | _, _, .cons h t => by rw [List.map_cons, List.map_cons, h, map_eq_of_forall₂ t]

/-- Looking up `g a` among keys moved by `g`, where no other key moves onto `g a`. -/
theorem lookup_map_fst {g : Nat → Nat} {a : Nat} :
    ∀ {l : List (Nat × Nat)}, (∀ q ∈ l, g q.1 = g a → q.1 = a) →
      (l.map (Prod.map g id)).lookup (g a) = l.lookup a
  | [], _ => rfl
  | (k, b) :: l, h => by
    have ih := lookup_map_fst fun q hq => h q (List.mem_cons_of_mem _ hq)
    by_cases hk : k = a
    · simp [hk]
    · have hg : g a ≠ g k := fun e => hk (h (k, b) (List.mem_cons_self _ _) e.symm)
      simp only [List.map_cons, Prod.map, id, List.lookup_cons, beq_false_of_ne hg,
        beq_false_of_ne (Ne.symm hk)]
      exact ih

namespace RoseProgram

variable {R : RecordLayout} {P : RoseProgram}

/-- The offset map reads pass 1 at the address's position. -/
theorem offsetMap_eq (t : InstrPtr) :
    P.offsetMap R t = (layoutFrom R 0 (P.prog.map Prod.snd))[P.ptrs.indexOf t]?.map Nat.toUInt32 := by
  rw [offsetMap, lookup_zip_eq (by simp [ptrs])]

theorem offsetMap_isSome {p : InstrPtr} (hp : p ∈ P.ptrs) : (P.offsetMap R p).isSome := by
  have hlen : P.ptrs.length ≤ (layoutFrom R 0 (P.prog.map Prod.snd)).length := by
    simp [ptrs]
  rw [← List.map_fst_zip _ _ hlen] at hp
  obtain ⟨q, hq, rfl⟩ := List.mem_map.1 hp
  simp only [offsetMap, Option.isSome_map', List.lookup_isSome_iff]
  exact ⟨q, hq, beq_self_eq_true _⟩

/-- An instruction of a closed program is equivalent to itself. -/
theorem equiv_self_offsetMap (hP : ∀ x ∈ P.prog, P.RefersInto x) {x : InstrPtr × RoseInstruction}
    (hx : x ∈ P.prog) : x.2.equiv x.2 (P.offsetMap R) (P.offsetMap R) = some true := by
  have hcov : ∀ t ∈ x.2.targets, (P.offsetMap R t).isSome :=
    fun t ht => offsetMap_isSome (hP x hx t ht)
  have hid : x.2.mapTargets id = x.2 := RoseInstruction.mapTargets_eq_self fun _ _ => rfl
  have h := RoseInstruction.equiv_mapTargets x.2 id hcov hcov
  simpa only [hid, Function.comp_id, decide_True] using h

/-- Relocating keeps every offset: `g p` sits where `p` sat. -/
theorem offsetMap_relocate {g : InstrPtr → InstrPtr}
    (hg : ∀ p ∈ P.ptrs, ∀ q ∈ P.ptrs, g p = g q → p = q) {p : InstrPtr} (hp : p ∈ P.ptrs) :
    (P.relocate g).offsetMap R (g p) = P.offsetMap R p := by
  have hsnd : (P.relocate g).prog.map Prod.snd =
      (P.prog.map Prod.snd).map (RoseInstruction.mapTargets g) := by
    simp [relocate]
  have hptrs : (P.relocate g).ptrs = P.ptrs.map g := by simp [relocate, ptrs]
  have hlay : layoutFrom R 0 ((P.prog.map Prod.snd).map (RoseInstruction.mapTargets g)) =
      layoutFrom R 0 (P.prog.map Prod.snd) :=
    layoutFrom_congr R (by simp [Function.comp_def])
  simp only [offsetMap, hsnd, hptrs, hlay, List.zip_map_left]
  rw [lookup_map_fst fun q hq e => hg _ (List.of_mem_zip hq).1 p hp e]

end RoseProgram

theorem roseProgramEquivalence_eq_some_true {R : RecordLayout} {P Q : RoseProgram} :
    roseProgramEquivalence R P Q = some true ↔
      List.Forall₂ (fun a b => a.2.equiv b.2 (P.offsetMap R) (Q.offsetMap R) = some true)
        P.prog Q.prog := by
  rw [List.forall₂_iff_zip, roseProgramEquivalence]
  by_cases hs : P.size = Q.size
  · rw [if_neg (not_not_intro hs), allM_eq_some_true]
    exact ⟨fun h => ⟨hs, fun hab => h _ hab⟩, fun h _ hx => h.2 hx⟩
  · rw [if_pos hs]
    exact ⟨fun h => absurd h (by simp), fun h => absurd h.1 hs⟩

/-! ## Top theorems -/

/-- **Equivalence is an equivalence relation on closed programs.**  Every closed program is
equivalent to itself, and `equiv_symm` and `equiv_trans` lift position by position. -/
theorem roseProgramEquivalence_equivalence (R : RecordLayout) :
    Equivalence fun P Q : ClosedProgram => roseProgramEquivalence R P.1 Q.1 = some true where
  refl P := roseProgramEquivalence_eq_some_true.2 <|
    List.forall₂_same.2 fun _ hx => RoseProgram.equiv_self_offsetMap P.2 hx
  symm h := roseProgramEquivalence_eq_some_true.2 <|
    (roseProgramEquivalence_eq_some_true.1 h).flip.imp fun _ _ => RoseInstruction.equiv_symm
  trans h h' := by
    rw [roseProgramEquivalence_eq_some_true] at h h' ⊢
    exact forall₂_trans (fun a b c => @RoseInstruction.equiv_trans a.2 b.2 c.2 _ _ _) h h'

/-- **Equivalence does not see the allocation.**  A closed program is equivalent to the same
program allocated at other addresses. -/
theorem roseProgramEquivalence_relocate (R : RecordLayout) {P : RoseProgram}
    (hP : ∀ x ∈ P.prog, P.RefersInto x) {g : InstrPtr → InstrPtr}
    (hg : ∀ p ∈ P.ptrs, ∀ q ∈ P.ptrs, g p = g q → p = q) :
    roseProgramEquivalence R P (P.relocate g) = some true := by
  refine roseProgramEquivalence_eq_some_true.2 ?_
  rw [RoseProgram.relocate, List.forall₂_map_right_iff]
  refine List.forall₂_same.2 fun x hx => ?_
  have hcov : ∀ t ∈ x.2.targets, (P.offsetMap R t).isSome :=
    fun t ht => RoseProgram.offsetMap_isSome (hP x hx t ht)
  have hmoved : ∀ t ∈ x.2.targets, (P.relocate g).offsetMap R (g t) = P.offsetMap R t :=
    fun t ht => RoseProgram.offsetMap_relocate hg (hP x hx t ht)
  rw [RoseInstruction.equiv_mapTargets x.2 g hcov fun t ht => (hmoved t ht).symm ▸ hcov t ht]
  simpa using List.map_congr_left fun t ht => (hmoved t ht).symm

theorem roseProgramEquivalence_relocate_onlyEod :
    roseProgramEquivalence ⟨fun _ => 8, fun _ => 8, fun _ => Nat.succ_pos 7, fun _ => Nat.succ_pos 7⟩ ⟨[(1, .roseInstrCheckOnlyEod 0), (0, .roseInstrEnd)]⟩
      (RoseProgram.relocate (· + 6) ⟨[(1, .roseInstrCheckOnlyEod 0), (0, .roseInstrEnd)]⟩) =
        some true :=
  roseProgramEquivalence_relocate _ (by decide) (by decide)

/-- **Equivalent programs hash alike outside `SPARSE_ITER_BEGIN`.**  Where no instruction of
`P` is a `SPARSE_ITER_BEGIN`, an equivalent program has the same instructions up to
targets, hence the same hash. -/
theorem roseProgramHash_of_equivalence (R : RecordLayout) (opcode : RoseInstructionCode → UInt8)
    {P Q : RoseProgram} (h : roseProgramEquivalence R P Q = some true)
    (hP : ∀ x ∈ P.prog, x.2.code ≠ .roseInstrSparseIterBegin) :
    roseProgramHash opcode P = roseProgramHash opcode Q := by
  have hpay : List.Forall₂ (fun a b : InstrPtr × RoseInstruction => a.2.hash opcode = b.2.hash opcode)
      P.prog Q.prog := by
    refine ((List.forall₂_and_left _ _).2 ⟨hP, roseProgramEquivalence_eq_some_true.1 h⟩).imp ?_
    rintro a b ⟨hb, hab⟩
    rw [← RoseInstruction.hash_payload, (RoseInstruction.equiv_sound hb hab).1,
      RoseInstruction.hash_payload]
  rw [roseProgramHash, roseProgramHash, map_eq_of_forall₂ hpay]

/-- Two copies of `[CHECK_ONLY_EOD -> END, END]` built at different addresses are equivalent
and hash alike. -/
theorem roseProgramHash_of_equivalence_onlyEod :
    roseProgramEquivalence ⟨fun _ => 8, fun _ => 8, fun _ => Nat.succ_pos 7, fun _ => Nat.succ_pos 7⟩
        ⟨[(1, .roseInstrCheckOnlyEod 0), (0, .roseInstrEnd)]⟩
        ⟨[(7, .roseInstrCheckOnlyEod 6), (6, .roseInstrEnd)]⟩ = some true ∧
      roseProgramHash (fun _ => 0) ⟨[(1, .roseInstrCheckOnlyEod 0), (0, .roseInstrEnd)]⟩ =
        roseProgramHash (fun _ => 0) ⟨[(7, .roseInstrCheckOnlyEod 6), (6, .roseInstrEnd)]⟩ :=
  have h : roseProgramEquivalence ⟨fun _ => 8, fun _ => 8, fun _ => Nat.succ_pos 7, fun _ => Nat.succ_pos 7⟩
      ⟨[(1, .roseInstrCheckOnlyEod 0), (0, .roseInstrEnd)]⟩
      ⟨[(7, .roseInstrCheckOnlyEod 6), (6, .roseInstrEnd)]⟩ = some true := by decide
  ⟨h, roseProgramHash_of_equivalence _ _ h (by decide)⟩

end Rose
