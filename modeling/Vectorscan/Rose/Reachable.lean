import Vectorscan.Rose.Equiv
import Mathlib.Data.List.Nodup

/-!
# Programs the mutators build

`Reachable okInsert okReplace` holds of the programs built from `RoseProgram()` by
`insert`, `add_before_end`, `add_block` and `replace`, where each instruction handed to
`insert` meets `okInsert`, each one handed to `replace` meets `okReplace`, and each block
is itself so built.  Ownership is part of every step: an instruction handed over is a
fresh allocation and a block is another program, so neither shares an address with the
receiver.  Each invariant has one lemma per mutator and one induction over the run:

    P.ptrs.Nodup                                                   (Reachable.ptrs_nodup)
    what is handed over refers into the program →
      every slot refers into the program and no `at` of `equiv` throws   (targets_mem_ptrs)
    `insert` before an instruction, the last one replaced by an `END` →
      the program ends with its `END`                              (endAsserts_of_reachable)
    what is handed over refers neither to itself nor to what it replaces →
      no instruction refers to itself                              (selfFree_of_reachable)
-/

namespace Rose

open scoped List

namespace RoseProgram

/-! ## Reachable programs -/

/-- Every target slot of `ri` holds the address of an instruction of `P`. -/
def RefersInto (P : RoseProgram) (ri : InstrPtr × RoseInstruction) : Prop :=
  ∀ t ∈ ri.2.targets, t ∈ P.ptrs

/-- No target slot of `ri` holds `ri`'s own address. -/
def SelfFree (ri : InstrPtr × RoseInstruction) : Prop :=
  ri.1 ∉ ri.2.targets

instance (P : RoseProgram) (ri : InstrPtr × RoseInstruction) : Decidable (P.RefersInto ri) :=
  inferInstanceAs (Decidable (∀ t ∈ ri.2.targets, t ∈ P.ptrs))

instance (ri : InstrPtr × RoseInstruction) : Decidable (SelfFree ri) :=
  inferInstanceAs (Decidable (ri.1 ∉ ri.2.targets))

/-- The programs built from `RoseProgram()` by the mutators.  `add_before_end` is
`insert` before the `END` (`Reachable.addBeforeEnd`, `Reachable.addBeforeEndBlock`). -/
inductive Reachable (okInsert okReplace : RoseProgram → Nat → InstrPtr × RoseInstruction → Prop) :
    RoseProgram → Prop
  | init (endPtr : InstrPtr) : Reachable okInsert okReplace (RoseProgram.init endPtr)
  | insert {P : RoseProgram} (it : Nat) (ri : InstrPtr × RoseInstruction) :
      Reachable okInsert okReplace P → ri.1 ∉ P.ptrs → okInsert P it ri →
      Reachable okInsert okReplace (P.insert it ri).1
  | insertBlock {P block : RoseProgram} (it : Nat) :
      Reachable okInsert okReplace P → Reachable okInsert okReplace block →
      P.ptrs.Disjoint block.ptrs → Reachable okInsert okReplace (P.insertBlock it block).1
  | addBlock {P block : RoseProgram} :
      Reachable okInsert okReplace P → Reachable okInsert okReplace block →
      P.ptrs.Disjoint block.ptrs → Reachable okInsert okReplace (P.addBlock block)
  | replace {P : RoseProgram} (it : Nat) (ri : InstrPtr × RoseInstruction) :
      Reachable okInsert okReplace P → ri.1 ∉ P.ptrs → okReplace P it ri →
      Reachable okInsert okReplace (P.replace it ri)

section Reachable

variable {okInsert okReplace : RoseProgram → Nat → InstrPtr × RoseInstruction → Prop}

theorem Reachable.addBeforeEnd {P : RoseProgram} {ri : InstrPtr × RoseInstruction}
    (h : Reachable okInsert okReplace P) (hfresh : ri.1 ∉ P.ptrs)
    (hok : okInsert P (P.size - 1) ri) : Reachable okInsert okReplace (P.addBeforeEnd ri) :=
  .insert _ _ h hfresh hok

theorem Reachable.addBeforeEndBlock {P B : RoseProgram} (hP : Reachable okInsert okReplace P)
    (hB : Reachable okInsert okReplace B) (hd : P.ptrs.Disjoint B.ptrs) :
    Reachable okInsert okReplace (P.addBeforeEndBlock B) := by
  unfold RoseProgram.addBeforeEndBlock
  split
  · exact hP
  · exact .insertBlock _ hP hB hd

/-- A program the mutators build is never without instructions. -/
theorem Reachable.prog_ne_nil {P : RoseProgram} (h : Reachable okInsert okReplace P) :
    P.prog ≠ [] := by
  induction h with
  | init => exact List.cons_ne_nil _ _
  | insert k ri => simp [RoseProgram.insert]
  | @insertBlock P B k _ _ _ ihP =>
      rcases insertBlock_cases P B k with h | ⟨hk, _, h⟩
      · rwa [h]
      · rw [h]
        simp only [size] at hk
        simp [hk]
  | @addBlock P B _ _ _ ihP ihB =>
      rcases addBlock_cases P B with h | ⟨_, _, h⟩
      · rwa [h]
      · simp [h, ihB]
  | @replace P k N _ _ _ ih =>
      rcases replace_cases P k N with h | ⟨_, h⟩
      · rwa [h]
      · simpa [h, mapUpdateTarget] using ih

/-- A program the mutators build is its instructions before its last one, then the last. -/
theorem Reachable.eq_concat {P : RoseProgram} (h : Reachable okInsert okReplace P) :
    ∃ p e, P = ⟨p ++ [e]⟩ :=
  ⟨P.prog.dropLast, P.prog.getLast h.prog_ne_nil,
    congrArg RoseProgram.mk (List.dropLast_append_getLast h.prog_ne_nil).symm⟩

end Reachable

/-! ## Where the entries go -/

theorem perm_insert (P : RoseProgram) (k : Nat) (ri : InstrPtr × RoseInstruction) :
    (P.insert k ri).1.prog ~ ri :: P.prog := by
  show P.prog.take k ++ ri :: P.prog.drop k ~ _
  exact List.perm_middle.trans (by rw [List.take_append_drop])

theorem perm_splice {α : Type} (l m : List α) (k : Nat) : l.take k ++ m ++ l.drop k ~ m ++ l := by
  simpa only [List.append_assoc, List.take_append_drop] using
    List.perm_append_comm_assoc (l.take k) m (l.drop k)

theorem sublist_insert (P : RoseProgram) (k : Nat) (ri : InstrPtr × RoseInstruction) :
    P.prog <+ (P.insert k ri).1.prog := by
  conv_lhs => rw [← List.take_append_drop k P.prog]
  exact (List.Sublist.refl _).append (List.sublist_cons_self ri _)

theorem sublist_splice {α : Type} (l m : List α) (k : Nat) : l <+ l.take k ++ m ++ l.drop k := by
  conv_lhs => rw [← List.take_append_drop k l]
  exact (List.sublist_append_left _ m).append (List.Sublist.refl _)

theorem mem_insert {P : RoseProgram} {k : Nat} {ri x : InstrPtr × RoseInstruction} :
    x ∈ (P.insert k ri).1.prog ↔ x = ri ∨ x ∈ P.prog :=
  (perm_insert P k ri).mem_iff.trans List.mem_cons

theorem mem_ptrs_insert {P : RoseProgram} {k : Nat} {ri : InstrPtr × RoseInstruction} {p : InstrPtr} :
    p ∈ (P.insert k ri).1.ptrs ↔ p = ri.1 ∨ p ∈ P.ptrs :=
  ((perm_insert P k ri).map Prod.fst).mem_iff.trans List.mem_cons

theorem mem_splice {α : Type} {l m : List α} {k : Nat} {x : α} :
    x ∈ l.take k ++ m ++ l.drop k ↔ x ∈ m ∨ x ∈ l :=
  (perm_splice l m k).mem_iff.trans List.mem_append

/-- The last address of a list of unique addresses is not among the others. -/
theorem fst_getLast_not_mem_dropLast {l : List (InstrPtr × RoseInstruction)}
    (hl : (l.map Prod.fst).Nodup) (h : l ≠ []) : (l.getLast h).1 ∉ l.dropLast.map Prod.fst := by
  rw [← List.dropLast_append_getLast h, List.map_append, List.nodup_append] at hl
  exact fun hm => hl.2.2 hm (List.mem_singleton_self _)

/-- A slot of an instruction swept by `update_targets(old, new)` holds `new` where the
instruction held `old`, and otherwise what it held. -/
theorem mem_targets_mapUpdateTarget {r : List (InstrPtr × RoseInstruction)} {o n : InstrPtr}
    {x : InstrPtr × RoseInstruction} (hx : x ∈ mapUpdateTarget r o n) {t : InstrPtr}
    (ht : t ∈ x.2.targets) :
    ∃ y ∈ r, x.1 = y.1 ∧ (t = n ∧ o ∈ y.2.targets ∨ t ≠ o ∧ t ∈ y.2.targets) := by
  obtain ⟨y, hy, rfl⟩ := mem_mapUpdateTarget.1 hx
  obtain ⟨t0, ht0, rfl⟩ := List.mem_map.1 (by simpa using ht)
  refine ⟨y, hy, rfl, ?_⟩
  by_cases h : t0 = o
  · exact .inl ⟨if_pos h, h ▸ ht0⟩
  · exact .inr ⟨by rwa [if_neg h], by rwa [if_neg h]⟩

theorem mem_ptrs_splice {l m : List (InstrPtr × RoseInstruction)} {k : Nat} {p : InstrPtr} :
    p ∈ (⟨l.take k ++ m ++ l.drop k⟩ : RoseProgram).ptrs ↔
      p ∈ m.map Prod.fst ∨ p ∈ l.map Prod.fst :=
  ((perm_splice l m k).map Prod.fst).mem_iff.trans (by rw [List.map_append, List.mem_append])

/-- An address of a non-empty list is its last one or one of the others. -/
theorem mem_map_fst_dropLast {l : List (InstrPtr × RoseInstruction)} (h : l ≠ []) {p : InstrPtr}
    (hp : p ∈ l.map Prod.fst) : p = (l.getLast h).1 ∨ p ∈ l.dropLast.map Prod.fst := by
  rw [← List.dropLast_append_getLast h, List.map_append, List.mem_append] at hp
  simpa only [List.map_cons, List.map_nil, List.mem_singleton, or_comm] using hp

theorem mem_set_of_ne {α : Type} {l : List α} {k : Nat} {a b : α} (ha : a ∈ l) (hk : k < l.length)
    (hne : a ≠ l[k]) : a ∈ l.set k b := by
  obtain ⟨i, hi, rfl⟩ := List.mem_iff_getElem.1 ha
  have hik : k ≠ i := by rintro rfl; exact hne rfl
  exact List.mem_iff_getElem.2 ⟨i, by simpa using hi, by rw [List.getElem_set, if_neg hik]⟩

/-! ## Unique addresses -/

section Nodup

variable {P B : RoseProgram}

theorem ptrs_nodup_insert (k : Nat) {ri : InstrPtr × RoseInstruction} (hP : P.ptrs.Nodup)
    (hfresh : ri.1 ∉ P.ptrs) : (P.insert k ri).1.ptrs.Nodup :=
  ((perm_insert P k ri).map Prod.fst).nodup_iff.2 (List.nodup_cons.2 ⟨hfresh, hP⟩)

theorem ptrs_nodup_insertBlock (k : Nat) (hP : P.ptrs.Nodup) (hB : B.ptrs.Nodup)
    (hd : P.ptrs.Disjoint B.ptrs) : (P.insertBlock k B).1.ptrs.Nodup := by
  rcases insertBlock_cases P B k with h | ⟨hk, hB', h⟩
  · rwa [h]
  · rw [h, ptrs_mk]
    refine ((perm_splice _ _ k).map Prod.fst).nodup_iff.2 ?_
    rw [List.map_append, map_fst_mapUpdateTarget, List.map_dropLast]
    exact List.nodup_append.2 ⟨hB.sublist (List.dropLast_sublist _), hP,
      List.disjoint_of_subset_left (List.dropLast_sublist _).subset fun _ h1 h2 => hd h2 h1⟩

theorem ptrs_nodup_addBlock (hP : P.ptrs.Nodup) (hB : B.ptrs.Nodup)
    (hd : P.ptrs.Disjoint B.ptrs) : (P.addBlock B).ptrs.Nodup := by
  rcases addBlock_cases P B with h | ⟨hP', hB', h⟩
  · rwa [h]
  · rw [h, ptrs_mk, List.map_append, map_fst_mapUpdateTarget, List.map_dropLast]
    exact List.nodup_append.2 ⟨hP.sublist (List.dropLast_sublist _), hB,
      List.disjoint_of_subset_left (List.dropLast_sublist _).subset hd⟩

theorem ptrs_nodup_replace (k : Nat) {N : InstrPtr × RoseInstruction} (hP : P.ptrs.Nodup)
    (hfresh : N.1 ∉ P.ptrs) : (P.replace k N).ptrs.Nodup := by
  rcases replace_cases P k N with h | ⟨hk, h⟩
  · rwa [h]
  · rw [h, ptrs_mk, map_fst_mapUpdateTarget, List.map_set]
    exact List.Nodup.set hP hfresh

variable {okInsert okReplace : RoseProgram → Nat → InstrPtr × RoseInstruction → Prop}

/-- The addresses of a program are unique: each step brings in fresh ones only. -/
theorem Reachable.ptrs_nodup (h : Reachable okInsert okReplace P) : P.ptrs.Nodup := by
  induction h with
  | init => exact List.nodup_singleton _
  | insert k _ _ hfresh _ ih => exact ptrs_nodup_insert k ih hfresh
  | insertBlock k _ _ hd ihP ihB => exact ptrs_nodup_insertBlock k ihP ihB hd
  | addBlock _ _ hd ihP ihB => exact ptrs_nodup_addBlock ihP ihB hd
  | replace k _ _ hfresh _ ih => exact ptrs_nodup_replace k ih hfresh

end Nodup

/-! ## The terminating `END` -/

/-- What `empty()`, `end_instruction()` and every mutator assert of the program:
`!prog.empty()` and `prog.back()->code() == ROSE_INSTR_END`. -/
def EndAsserts (P : RoseProgram) : Prop :=
  ∃ e, P.prog.getLast? = some e ∧ e.2.code = .roseInstrEnd

theorem getLast?_append_drop {α : Type} (a l : List α) {k : Nat} (hk : k < l.length) :
    (a ++ l.drop k).getLast? = l.getLast? := by
  rw [List.getLast?_append, List.getLast?_drop, if_neg (Nat.not_le.2 hk),
    List.getLast?_eq_getLast l (List.ne_nil_of_length_pos (by omega))]
  rfl

section EndAsserts

variable {P B : RoseProgram}

theorem EndAsserts.prog_ne_nil (h : P.EndAsserts) : P.prog ≠ [] := by
  obtain ⟨e, he, -⟩ := h
  rintro hnil
  simp [hnil] at he

theorem endAsserts_insert {k : Nat} {ri : InstrPtr × RoseInstruction} (hP : P.EndAsserts)
    (hk : k < P.size) : (P.insert k ri).1.EndAsserts := by
  have h : (P.insert k ri).1.prog = (P.prog.take k ++ [ri]) ++ P.prog.drop k := by simp [insert]
  rwa [EndAsserts, h, getLast?_append_drop _ _ hk]

theorem endAsserts_insertBlock (k : Nat) (hP : P.EndAsserts) :
    (P.insertBlock k B).1.EndAsserts := by
  rcases insertBlock_cases P B k with h | ⟨hk, _, h⟩
  · rwa [h]
  · rwa [h, EndAsserts, getLast?_append_drop _ _ hk]

theorem endAsserts_addBlock (hP : P.EndAsserts) (hB : B.EndAsserts) : (P.addBlock B).EndAsserts := by
  rcases addBlock_cases P B with h | ⟨_, _, h⟩
  · rwa [h]
  · obtain ⟨e, he, hc⟩ := hB
    exact ⟨e, by rw [h]; simp [List.getLast?_append, he], hc⟩

theorem endAsserts_replace {k : Nat} {N : InstrPtr × RoseInstruction} (hP : P.EndAsserts)
    (hN : k + 1 = P.size → N.2.code = .roseInstrEnd) : (P.replace k N).EndAsserts := by
  rcases replace_cases P k N with h | ⟨hk, h⟩
  · rwa [h]
  · obtain ⟨e, he, hc⟩ := hP
    simp only [size] at hk hN
    rw [List.getLast?_eq_getElem?] at he
    rw [h, EndAsserts, mapUpdateTarget, List.getLast?_map, List.getLast?_eq_getElem?,
      List.length_set, List.getElem?_set]
    split_ifs with h1
    · exact ⟨_, rfl, by simpa using hN (by omega)⟩
    · exact ⟨_, by rw [he]; rfl, by simpa using hc⟩

variable {okInsert okReplace : RoseProgram → Nat → InstrPtr × RoseInstruction → Prop}

/-- The program ends with its `END` over every run whose `insert`s go before an
instruction and whose `replace`s put an `END` in the last place. -/
theorem Reachable.endAsserts (h : Reachable okInsert okReplace P)
    (hI : ∀ {P k ri}, okInsert P k ri → k < P.size)
    (hR : ∀ {P k ri}, okReplace P k ri → k + 1 = P.size → ri.2.code = .roseInstrEnd) :
    P.EndAsserts := by
  induction h with
  | init => exact ⟨_, rfl, rfl⟩
  | insert _ _ _ _ hk ih => exact endAsserts_insert ih (hI hk)
  | insertBlock k _ _ _ ihP _ => exact endAsserts_insertBlock k ihP
  | addBlock _ _ _ ihP ihB => exact endAsserts_addBlock ihP ihB
  | replace _ _ _ _ hN ih => exact endAsserts_replace ih (hR hN)

end EndAsserts

/-! ## Targets stay in the program -/

section Closed

variable {P B : RoseProgram}

theorem refersInto_mono {P Q : RoseProgram} {x : InstrPtr × RoseInstruction} (h : P.RefersInto x)
    (hPQ : ∀ p ∈ P.ptrs, p ∈ Q.ptrs) : Q.RefersInto x :=
  fun t ht => hPQ t (h t ht)

/-- A sweep `update_targets(old, new)` over instructions that refer into `Q` or to `old`
leaves them referring into `Q`, when `new` is an address of `Q`. -/
theorem refersInto_mapUpdateTarget {r : List (InstrPtr × RoseInstruction)} {o n : InstrPtr}
    {Q : RoseProgram} (hr : ∀ y ∈ r, ∀ t ∈ y.2.targets, t = o ∨ t ∈ Q.ptrs) (hn : n ∈ Q.ptrs) :
    ∀ x ∈ mapUpdateTarget r o n, Q.RefersInto x := by
  intro x hx t ht
  obtain ⟨y, hy, -, ⟨rfl, -⟩ | ⟨hto, hty⟩⟩ := mem_targets_mapUpdateTarget hx ht
  · exact hn
  · exact (hr y hy t hty).resolve_left hto

theorem closed_insert {k : Nat} {ri : InstrPtr × RoseInstruction}
    (hP : ∀ x ∈ P.prog, P.RefersInto x) (hri : P.RefersInto ri) :
    ∀ x ∈ (P.insert k ri).1.prog, (P.insert k ri).1.RefersInto x := by
  have hsub : ∀ p ∈ P.ptrs, p ∈ (P.insert k ri).1.ptrs := fun p hp => mem_ptrs_insert.2 (.inr hp)
  intro x hx
  rcases mem_insert.1 hx with rfl | hx
  · exact refersInto_mono hri hsub
  · exact refersInto_mono (hP x hx) hsub

theorem closed_insertBlock (k : Nat) (hP : ∀ x ∈ P.prog, P.RefersInto x)
    (hB : ∀ x ∈ B.prog, B.RefersInto x) :
    ∀ x ∈ (P.insertBlock k B).1.prog, (P.insertBlock k B).1.RefersInto x := by
  rcases insertBlock_cases P B k with h | ⟨hk, hB', h⟩
  · rwa [h]
  rw [h]
  intro x hx
  rcases mem_splice.1 hx with hx | hx
  · refine refersInto_mapUpdateTarget (fun y hy t ht => ?_) ?_ x hx
    · refine (mem_map_fst_dropLast hB' (hB y (List.dropLast_sublist _ |>.subset hy) t ht)).imp id
        fun h => mem_ptrs_splice.2 (.inl ?_)
      rwa [map_fst_mapUpdateTarget]
    · exact mem_ptrs_splice.2 (.inr (List.mem_map_of_mem _ (List.get_mem _ _ _)))
  · exact refersInto_mono (hP x hx) fun p hp => mem_ptrs_splice.2 (.inr hp)

theorem closed_addBlock (hP : ∀ x ∈ P.prog, P.RefersInto x) (hB : ∀ x ∈ B.prog, B.RefersInto x) :
    ∀ x ∈ (P.addBlock B).prog, (P.addBlock B).RefersInto x := by
  rcases addBlock_cases P B with h | ⟨hP', hB', h⟩
  · rwa [h]
  rw [h]
  have hQ : ∀ p, p ∈ P.prog.dropLast.map Prod.fst ∨ p ∈ B.ptrs → p ∈ (⟨mapUpdateTarget P.prog.dropLast
      (P.prog.getLast hP').1 (B.prog.head hB').1 ++ B.prog⟩ : RoseProgram).ptrs := by
    simp [ptrs]
  intro x hx
  rcases List.mem_append.1 hx with hx | hx
  · refine refersInto_mapUpdateTarget (fun y hy t ht => ?_) (hQ _ (.inr ?_)) x hx
    · exact (mem_map_fst_dropLast hP' (hP y (List.dropLast_sublist _ |>.subset hy) t ht)).imp id
        fun h => hQ _ (.inl h)
    · exact List.mem_map_of_mem _ (List.head_mem _)
  · exact refersInto_mono (hB x hx) fun p hp => hQ p (.inr hp)

theorem closed_replace {k : Nat} {N : InstrPtr × RoseInstruction}
    (hP : ∀ x ∈ P.prog, P.RefersInto x) (hN : P.RefersInto N) :
    ∀ x ∈ (P.replace k N).prog, (P.replace k N).RefersInto x := by
  rcases replace_cases P k N with h | ⟨hk, h⟩
  · rwa [h]
  rw [h]
  have hQ : (⟨mapUpdateTarget (P.prog.set k N) (P.prog.get ⟨k, hk⟩).1 N.1⟩ : RoseProgram).ptrs =
      P.ptrs.set k N.1 := by
    simp [ptrs, List.map_set]
  refine refersInto_mapUpdateTarget (fun y hy t ht => ?_) ?_
  · have htP : t ∈ P.ptrs := by
      rcases List.mem_or_eq_of_mem_set hy with hy | rfl
      exacts [hP y hy t ht, hN t ht]
    rw [hQ]
    by_cases hto : t = (P.prog.get ⟨k, hk⟩).1
    · exact .inl hto
    · exact .inr (mem_set_of_ne htP (by simpa [ptrs] using hk) (by simpa [ptrs] using hto))
  · rw [hQ]
    exact List.mem_set _ _ (by simpa [ptrs] using hk) _

variable {okInsert okReplace : RoseProgram → Nat → InstrPtr × RoseInstruction → Prop}

/-- Targets stay in the program over every run whose conditions make what is handed over
refer into the receiver. -/
theorem Reachable.refersInto (h : Reachable okInsert okReplace P)
    (hI : ∀ {P k ri}, okInsert P k ri → P.RefersInto ri)
    (hR : ∀ {P k ri}, okReplace P k ri → P.RefersInto ri) :
    ∀ x ∈ P.prog, P.RefersInto x := by
  induction h with
  | init =>
      intro x hx t ht
      obtain rfl := List.mem_singleton.1 hx
      exact absurd ht (List.not_mem_nil t)
  | insert _ _ _ _ hri ih => exact closed_insert ih (hI hri)
  | insertBlock k _ _ _ ihP ihB => exact closed_insertBlock k ihP ihB
  | addBlock _ _ _ ihP ihB => exact closed_addBlock ihP ihB
  | replace _ _ _ _ hN ih => exact closed_replace ih (hR hN)

end Closed

/-! ## No instruction refers to itself -/

section SelfFree

variable {P B : RoseProgram}

/-- A sweep `update_targets(old, new)` keeps instructions free of self-references when
none of those that hold `old` sits at `new`. -/
theorem selfFree_mapUpdateTarget {r : List (InstrPtr × RoseInstruction)} {o n : InstrPtr}
    (hr : ∀ y ∈ r, SelfFree y) (hn : ∀ y ∈ r, o ∈ y.2.targets → y.1 ≠ n) :
    ∀ x ∈ mapUpdateTarget r o n, SelfFree x := by
  intro x hx ht
  obtain ⟨y, hy, hxy, ⟨htn, hoy⟩ | ⟨-, hty⟩⟩ := mem_targets_mapUpdateTarget hx ht
  · exact hn y hy hoy (hxy ▸ htn)
  · exact hr y hy (hxy ▸ hty)

theorem selfFree_insert {k : Nat} {ri : InstrPtr × RoseInstruction} (hP : ∀ x ∈ P.prog, SelfFree x)
    (hri : SelfFree ri) : ∀ x ∈ (P.insert k ri).1.prog, SelfFree x := by
  intro x hx
  rcases mem_insert.1 hx with rfl | hx
  exacts [hri, hP x hx]

theorem selfFree_insertBlock (k : Nat) (hP : ∀ x ∈ P.prog, SelfFree x)
    (hB : ∀ x ∈ B.prog, SelfFree x) (hd : P.ptrs.Disjoint B.ptrs) :
    ∀ x ∈ (P.insertBlock k B).1.prog, SelfFree x := by
  rcases insertBlock_cases P B k with h | ⟨hk, hB', h⟩
  · rwa [h]
  rw [h]
  intro x hx
  rcases mem_splice.1 hx with hx | hx
  · refine selfFree_mapUpdateTarget (fun y hy => hB y (List.dropLast_sublist _ |>.subset hy))
      (fun y hy _ he => hd ?_ (List.mem_map_of_mem _ (List.dropLast_sublist _ |>.subset hy))) x hx
    exact he ▸ List.mem_map_of_mem _ (List.get_mem _ _ _)
  · exact hP x hx

theorem selfFree_addBlock (hP : ∀ x ∈ P.prog, SelfFree x) (hB : ∀ x ∈ B.prog, SelfFree x)
    (hd : P.ptrs.Disjoint B.ptrs) : ∀ x ∈ (P.addBlock B).prog, SelfFree x := by
  rcases addBlock_cases P B with h | ⟨hP', hB', h⟩
  · rwa [h]
  rw [h]
  intro x hx
  rcases List.mem_append.1 hx with hx | hx
  · refine selfFree_mapUpdateTarget (fun y hy => hP y (List.dropLast_sublist _ |>.subset hy))
      (fun y hy _ he => hd (List.mem_map_of_mem _ (List.dropLast_sublist _ |>.subset hy)) ?_) x hx
    exact he ▸ List.mem_map_of_mem _ (List.head_mem _)
  · exact hB x hx

theorem selfFree_replace {k : Nat} {N : InstrPtr × RoseInstruction} (hP : ∀ x ∈ P.prog, SelfFree x)
    (hN : SelfFree N) (hfresh : N.1 ∉ P.ptrs) (hold : ∀ old ∈ P.prog[k]?, old.1 ∉ N.2.targets) :
    ∀ x ∈ (P.replace k N).prog, SelfFree x := by
  rcases replace_cases P k N with h | ⟨hk, h⟩
  · rwa [h]
  rw [h]
  have hk' : P.prog[k]? = some (P.prog.get ⟨k, hk⟩) := by simp [hk]
  refine selfFree_mapUpdateTarget (fun y hy => ?_) (fun y hy ho he => ?_)
  · rcases List.mem_or_eq_of_mem_set hy with hy | rfl
    exacts [hP y hy, hN]
  · rcases List.mem_or_eq_of_mem_set hy with hy | rfl
    · exact hfresh (he ▸ List.mem_map_of_mem _ hy)
    · exact hold _ hk' ho

end SelfFree

/-! ## Top theorems -/

/-- **Targets stay in the program.**  When every instruction handed to `insert`,
`add_before_end` or `replace` refers into the receiver, every target slot of a reachable
program holds the address of one of its instructions; so `equiv` between two such programs,
under layouts that cover them, never looks up a missing key. -/
theorem targets_mem_ptrs {P Q : RoseProgram}
    (hP : Reachable (fun P _ ri => P.RefersInto ri) (fun P _ ri => P.RefersInto ri) P)
    (hQ : Reachable (fun P _ ri => P.RefersInto ri) (fun P _ ri => P.RefersInto ri) Q) :
    (∀ x ∈ P.prog, ∀ t ∈ x.2.targets, t ∈ P.ptrs) ∧
    ∀ o o' : OffsetMap, (∀ p ∈ P.ptrs, (o p).isSome) → (∀ p ∈ Q.ptrs, (o' p).isSome) →
      ∀ x ∈ P.prog, ∀ y ∈ Q.prog, (x.2.equiv y.2 o o').isSome := by
  have closedP := hP.refersInto id id
  refine ⟨closedP, fun o o' ho ho' x hx y hy => RoseInstruction.equiv_isSome ?_ ?_⟩
  · exact fun t ht => ho t (closedP x hx t ht)
  · exact fun t ht => ho' t (hQ.refersInto id id y hy t ht)

theorem targets_mem_ptrs_onlyEod :
    (∀ x ∈ ((RoseProgram.init 0).addBeforeEnd (1, .roseInstrCheckOnlyEod 0)).prog,
      ∀ t ∈ x.2.targets, t ∈ ((RoseProgram.init 0).addBeforeEnd (1, .roseInstrCheckOnlyEod 0)).ptrs) ∧
    ∀ o o' : OffsetMap,
      (∀ p ∈ ((RoseProgram.init 0).addBeforeEnd (1, .roseInstrCheckOnlyEod 0)).ptrs, (o p).isSome) →
      (∀ p ∈ ((RoseProgram.init 0).addBeforeEnd (1, .roseInstrCheckOnlyEod 0)).ptrs, (o' p).isSome) →
      ∀ x ∈ ((RoseProgram.init 0).addBeforeEnd (1, .roseInstrCheckOnlyEod 0)).prog,
      ∀ y ∈ ((RoseProgram.init 0).addBeforeEnd (1, .roseInstrCheckOnlyEod 0)).prog,
        (x.2.equiv y.2 o o').isSome :=
  have h : Reachable (fun P _ ri => P.RefersInto ri) (fun P _ ri => P.RefersInto ri)
      ((RoseProgram.init 0).addBeforeEnd (1, .roseInstrCheckOnlyEod 0)) :=
    .addBeforeEnd (.init 0) (by decide) (by decide)
  targets_mem_ptrs h h

/-- **The program ends with its `END`.**  Built by `insert` before an instruction and by
`replace` that puts an `END` wherever it replaces the last instruction, every program is
non-empty and ends with an `END`; so no `END` assertion fails, the check `replace` makes
after its sweep included. -/
theorem endAsserts_of_reachable {P : RoseProgram}
    (h : Reachable (fun P it _ => it < P.size)
      (fun P it ri => it + 1 = P.size → ri.2.code = .roseInstrEnd) P) :
    P.EndAsserts ∧ ∀ it ri, (it + 1 = P.size → ri.2.code = .roseInstrEnd) →
      (P.replace it ri).EndAsserts := by
  have hEnd := h.endAsserts id id
  exact ⟨hEnd, fun _ _ hN => endAsserts_replace hEnd hN⟩

theorem endAsserts_of_reachable_onlyEod :
    ((RoseProgram.init 0).addBeforeEnd (1, .roseInstrCheckOnlyEod 0)).EndAsserts ∧
    ∀ it ri, (it + 1 = ((RoseProgram.init 0).addBeforeEnd (1, .roseInstrCheckOnlyEod 0)).size →
        ri.2.code = .roseInstrEnd) →
      (((RoseProgram.init 0).addBeforeEnd (1, .roseInstrCheckOnlyEod 0)).replace it ri).EndAsserts :=
  endAsserts_of_reachable (.addBeforeEnd (.init 0) (by decide) (by decide))

/-- `replace` of the first instruction of `[CHECK_ONLY_EOD → END, END]` by a fresh
`CHECK_ONLY_EOD` that jumps to the instruction it replaces: the sweep sends the new
instruction's own slot to itself. -/
theorem replace_selfTarget :
    Reachable (fun P _ ri => P.RefersInto ri ∧ SelfFree ri) (fun P _ ri => P.RefersInto ri ∧ SelfFree ri)
      (((RoseProgram.init 0).addBeforeEnd (1, .roseInstrCheckOnlyEod 0)).replace 0
        (2, .roseInstrCheckOnlyEod 1)) ∧
    ¬ ∀ x ∈ (((RoseProgram.init 0).addBeforeEnd (1, .roseInstrCheckOnlyEod 0)).replace 0
        (2, .roseInstrCheckOnlyEod 1)).prog, SelfFree x :=
  ⟨.replace _ _ (.addBeforeEnd (.init 0) (by decide) (by decide)) (by decide) (by decide),
    fun h => h (2, .roseInstrCheckOnlyEod 2) (List.mem_cons_self _ _) (List.mem_singleton_self 2)⟩

/-- **No instruction refers to itself**, when nothing handed over refers to itself and
`replace` is never given an instruction that already refers to the one it replaces. -/
theorem selfFree_of_reachable {P : RoseProgram}
    (h : Reachable (fun P _ ri => P.RefersInto ri ∧ SelfFree ri)
      (fun P it ri => P.RefersInto ri ∧ SelfFree ri ∧ ∀ old ∈ P.prog[it]?, old.1 ∉ ri.2.targets) P) :
    ∀ x ∈ P.prog, SelfFree x := by
  induction h with
  | init =>
      intro x hx
      obtain rfl := List.mem_singleton.1 hx
      exact List.not_mem_nil _
  | insert _ _ _ _ hri ih => exact selfFree_insert ih hri.2
  | insertBlock k hP hB hd ihP ihB => exact selfFree_insertBlock k ihP ihB hd
  | addBlock hP hB hd ihP ihB => exact selfFree_addBlock ihP ihB hd
  | replace _ _ _ hfresh hN ih => exact selfFree_replace ih hN.2.1 hfresh hN.2.2

theorem selfFree_of_reachable_onlyEod :
    Reachable (fun P _ ri => P.RefersInto ri ∧ SelfFree ri)
        (fun P it ri => P.RefersInto ri ∧ SelfFree ri ∧ ∀ old ∈ P.prog[it]?, old.1 ∉ ri.2.targets)
        (((RoseProgram.init 0).addBeforeEnd (1, .roseInstrCheckOnlyEod 0)).replace 0
          (2, .roseInstrCheckOnlyEod 0)) ∧
    ∀ x ∈ (((RoseProgram.init 0).addBeforeEnd (1, .roseInstrCheckOnlyEod 0)).replace 0
      (2, .roseInstrCheckOnlyEod 0)).prog, SelfFree x :=
  have h : Reachable (fun P _ ri => P.RefersInto ri ∧ SelfFree ri)
      (fun P it ri => P.RefersInto ri ∧ SelfFree ri ∧ ∀ old ∈ P.prog[it]?, old.1 ∉ ri.2.targets)
      (((RoseProgram.init 0).addBeforeEnd (1, .roseInstrCheckOnlyEod 0)).replace 0
        (2, .roseInstrCheckOnlyEod 0)) :=
    .replace _ _ (.addBeforeEnd (.init 0) (by decide) (by decide)) (by decide)
      ⟨by decide, by decide, by simp [RoseProgram.addBeforeEnd, RoseProgram.insert,
        RoseProgram.init, RoseInstruction.targets]⟩
  ⟨h, selfFree_of_reachable h⟩

end RoseProgram

end Rose
