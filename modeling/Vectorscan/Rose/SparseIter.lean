import Vectorscan.Rose.Reachable

/-!
# Iterator order

A `SPARSE_ITER_NEXT` shares its iterator with the `SPARSE_ITER_BEGIN` its `begin` points
to: `write` reads the `BEGIN`'s `is_written`, `iter_offset` and `jump_table_offset`, which
the `BEGIN`'s own `write` sets, so the `BEGIN` has to come first; and `update_target`
asserts that whatever replaces a `begin` is a `SPARSE_ITER_BEGIN`.  When each `NEXT`
handed over has its `BEGIN` before it, and `replace` puts a `BEGIN` wherever it replaces
one a `NEXT` uses, every reachable program keeps each `NEXT` after its `BEGIN`; so the
sweeps that redirect a popped `END` never take the `begin` branch:

    [e, x] <+ P.prog ∧ e.1 = b ∧ e.2.code = BEGIN   for each NEXT x with begin b,
    and b is not the address of the last instruction       (nextsFollowBegin_of_reachable)

`[e, x] <+ l` says that `e` comes before `x` in `l`; addresses are unique
(`Reachable.ptrs_nodup`), so `e` is the instruction at `b`.
-/

namespace Rose

open scoped List

namespace RoseProgram

/-- A `SPARSE_ITER_NEXT` handed over at `it` has a `begin` that is the address of a
`SPARSE_ITER_BEGIN` placed before `it`. -/
def NextBeginBefore (P : RoseProgram) (it : Nat) (ri : InstrPtr × RoseInstruction) : Prop :=
  ∀ s b t, ri.2 = .roseInstrSparseIterNext s b t →
    ∃ e ∈ P.prog.take it, e.1 = b ∧ e.2.code = .roseInstrSparseIterBegin

/-- What `replace` puts at `it` is a `SPARSE_ITER_BEGIN` when some `SPARSE_ITER_NEXT` has
the instruction at `it` as its `begin`: the assertion of
`RoseInstrSparseIterNext::update_target`. -/
def BeginReplacedByBegin (P : RoseProgram) (it : Nat) (ri : InstrPtr × RoseInstruction) : Prop :=
  ∀ old ∈ P.prog[it]?, (∃ x ∈ P.prog, ∃ s t, x.2 = .roseInstrSparseIterNext s old.1 t) →
    ri.2.code = .roseInstrSparseIterBegin

/-- Every `SPARSE_ITER_NEXT` of `l` comes after a `SPARSE_ITER_BEGIN` at its `begin`. -/
def NextsFollowBegin (l : List (InstrPtr × RoseInstruction)) : Prop :=
  ∀ x ∈ l, ∀ s b t, x.2 = .roseInstrSparseIterNext s b t →
    ∃ e, [e, x] <+ l ∧ e.1 = b ∧ e.2.code = .roseInstrSparseIterBegin

/-! ## Lemmas -/

theorem pair_sublist_append_singleton {α : Type} {e x z : α} {A : List α}
    (h : [e, x] <+ A ++ [z]) : e ∈ A ∧ (x ≠ z → [e, x] <+ A) := by
  obtain ⟨l₁, l₂, heq, h1, h2⟩ := List.sublist_append_iff.1 h
  rcases List.sublist_singleton.1 h2 with rfl | rfl
  · rw [List.append_nil] at heq
    subst heq
    exact ⟨h1.subset (List.mem_cons_self _ _), fun _ => h1⟩
  · obtain ⟨a, rfl⟩ := List.length_eq_one.1 (by simpa using congrArg List.length heq)
    obtain ⟨rfl, rfl⟩ : e = a ∧ x = z := by simpa using heq
    exact ⟨h1.subset (List.mem_singleton_self _), fun h => absurd rfl h⟩

/-- An instruction before position `k` comes before the one at `k`. -/
theorem pair_sublist_of_mem_take {α : Type} {l : List α} {k : Nat} (hk : k < l.length) {e : α}
    (he : e ∈ l.take k) : [e, l[k]] <+ l := by
  conv_rhs => rw [← List.take_append_drop k l, ← List.getElem_cons_drop l k hk]
  exact (List.singleton_sublist.2 he).append (List.cons_sublist_cons.2 (List.nil_sublist _))

theorem fst_ne_of_mem_take {l : List (InstrPtr × RoseInstruction)} (hl : (l.map Prod.fst).Nodup)
    {k : Nat} (hk : k < l.length) {e : InstrPtr × RoseInstruction} (he : e ∈ l.take k) :
    e.1 ≠ l[k].1 := by
  obtain ⟨j, hj, rfl⟩ := List.mem_iff_getElem.1 he
  rw [List.length_take] at hj
  intro heq
  have := (@List.Nodup.getElem_inj_iff _ _ hl j (by simp; omega) k (by simpa using hk)).1
    (by simpa using heq)
  omega

/-- With unique addresses, `set` is the map that swaps the one instruction at the address. -/
theorem set_eq_map {l : List (InstrPtr × RoseInstruction)} (hl : (l.map Prod.fst).Nodup) {k : Nat}
    (hk : k < l.length) (N : InstrPtr × RoseInstruction) :
    l.set k N = l.map fun y => if y.1 = l[k].1 then N else y := by
  refine List.ext_getElem (by simp) fun i h1 h2 => ?_
  have hik := @List.Nodup.getElem_inj_iff _ _ hl i (by simpa using h1) k (by simpa using hk)
  simp only [List.getElem_map] at hik
  by_cases hki : k = i
  · subst hki
    simp
  · simp [List.getElem_set, hki, hik, Ne.symm hki]

section Order

variable {l m : List (InstrPtr × RoseInstruction)}

theorem NextsFollowBegin.of_cover
    (h : ∀ x ∈ l, ∃ m, m <+ l ∧ x ∈ m ∧ NextsFollowBegin m) : NextsFollowBegin l := by
  intro x hx s b t hn
  obtain ⟨m, hm, hxm, hnfb⟩ := h x hx
  obtain ⟨e, he, h1, h2⟩ := hnfb x hxm s b t hn
  exact ⟨e, he.trans hm, h1, h2⟩

theorem NextsFollowBegin.append (hl : NextsFollowBegin l) (hm : NextsFollowBegin m) :
    NextsFollowBegin (l ++ m) :=
  .of_cover fun _ hx => (List.mem_append.1 hx).elim
    (fun h => ⟨l, List.sublist_append_left _ _, h, hl⟩)
    (fun h => ⟨m, List.sublist_append_right _ _, h, hm⟩)

theorem NextsFollowBegin.splice (hl : NextsFollowBegin l) (hm : NextsFollowBegin m) (k : Nat) :
    NextsFollowBegin (l.take k ++ m ++ l.drop k) :=
  .of_cover fun _ hx => (mem_splice.1 hx).elim
    (fun h => ⟨m, (List.sublist_append_right _ m).trans (List.sublist_append_left _ _), h, hm⟩)
    (fun h => ⟨l, sublist_splice l m k, h, hl⟩)

theorem NextsFollowBegin.map {φ : InstrPtr × RoseInstruction → InstrPtr × RoseInstruction}
    (h : ∀ x ∈ l, ∀ s b t, (φ x).2 = .roseInstrSparseIterNext s b t →
      ∃ e, [e, x] <+ l ∧ (φ e).1 = b ∧ (φ e).2.code = .roseInstrSparseIterBegin) :
    NextsFollowBegin (l.map φ) := by
  intro x' hx' s b t hn
  obtain ⟨x, hx, rfl⟩ := List.mem_map.1 hx'
  obtain ⟨e, he, h1, h2⟩ := h x hx s b t hn
  exact ⟨φ e, he.map φ, h1, h2⟩

/-- A `NEXT`'s `BEGIN` is never the last instruction. -/
theorem NextsFollowBegin.begin_ne_last (hl : (l.map Prod.fst).Nodup) (h : NextsFollowBegin l)
    {x : InstrPtr × RoseInstruction} (hx : x ∈ l) {s : UInt32} {b t : InstrPtr}
    (hn : x.2 = .roseInstrSparseIterNext s b t) (hne : l ≠ []) : b ≠ (l.getLast hne).1 := by
  obtain ⟨e, he, rfl, -⟩ := h x hx s b t hn
  rw [← List.dropLast_append_getLast hne] at he
  exact fun heq => fst_getLast_not_mem_dropLast hl hne
    (heq ▸ List.mem_map_of_mem _ (pair_sublist_append_singleton he).1)

theorem NextsFollowBegin.dropLast (hl : (l.map Prod.fst).Nodup) (h : NextsFollowBegin l) :
    NextsFollowBegin l.dropLast := by
  intro x hx s b t hn
  have hne : l ≠ [] := by rintro rfl; simp at hx
  obtain ⟨e, he, h1, h2⟩ := h x (List.dropLast_sublist _ |>.subset hx) s b t hn
  rw [← List.dropLast_append_getLast hne] at he
  refine ⟨e, (pair_sublist_append_singleton he).2 ?_, h1, h2⟩
  rintro rfl
  exact fst_getLast_not_mem_dropLast hl hne (List.mem_map_of_mem _ hx)

/-- A sweep that never meets a `begin` leaves every `NEXT` after its `BEGIN`. -/
theorem NextsFollowBegin.redirect {o n : InstrPtr} (h : NextsFollowBegin l)
    (ho : ∀ x ∈ l, ∀ s b t, x.2 = .roseInstrSparseIterNext s b t → b ≠ o) :
    NextsFollowBegin (mapUpdateTarget l o n) := by
  refine NextsFollowBegin.map fun x hx s b t hn => ?_
  obtain ⟨b0, t0, hx0, rfl, -⟩ := RoseInstruction.mapTargets_eq_sparseIterNext hn
  obtain ⟨e, he, h1, h2⟩ := h x hx s b0 t0 hx0
  exact ⟨e, he, by simp [if_neg (ho x hx s b0 t0 hx0), h1], by simpa using h2⟩

end Order

section Steps

variable {P B : RoseProgram}

theorem nextsFollowBegin_insert {k : Nat} {ri : InstrPtr × RoseInstruction}
    (hP : NextsFollowBegin P.prog) (hri : P.NextBeginBefore k ri) :
    NextsFollowBegin (P.insert k ri).1.prog := by
  intro x hx s b t hn
  rcases mem_insert.1 hx with rfl | hx
  · obtain ⟨e, he, h1, h2⟩ := hri s b t hn
    exact ⟨e, (List.singleton_sublist.2 he).append
      (List.cons_sublist_cons.2 (List.nil_sublist _)), h1, h2⟩
  · obtain ⟨e, he, h1, h2⟩ := hP x hx s b t hn
    exact ⟨e, he.trans (sublist_insert P k _), h1, h2⟩

theorem nextsFollowBegin_insertBlock (k : Nat) (hP : NextsFollowBegin P.prog)
    (hB : NextsFollowBegin B.prog) (hBn : B.ptrs.Nodup) :
    NextsFollowBegin (P.insertBlock k B).1.prog := by
  rcases insertBlock_cases P B k with h | ⟨_, hB', h⟩
  · rwa [h]
  rw [h]
  exact hP.splice ((hB.dropLast hBn).redirect fun x hx _ _ _ hn =>
    hB.begin_ne_last hBn (List.dropLast_sublist _ |>.subset hx) hn hB') k

theorem nextsFollowBegin_addBlock (hP : NextsFollowBegin P.prog) (hPn : P.ptrs.Nodup)
    (hB : NextsFollowBegin B.prog) : NextsFollowBegin (P.addBlock B).prog := by
  rcases addBlock_cases P B with h | ⟨hP', _, h⟩
  · rwa [h]
  rw [h]
  exact ((hP.dropLast hPn).redirect fun x hx _ _ _ hn =>
    hP.begin_ne_last hPn (List.dropLast_sublist _ |>.subset hx) hn hP').append hB

theorem nextsFollowBegin_replace {k : Nat} {N : InstrPtr × RoseInstruction}
    (hP : NextsFollowBegin P.prog) (hPn : P.ptrs.Nodup) (hN : P.NextBeginBefore k N)
    (hb : P.BeginReplacedByBegin k N) : NextsFollowBegin (P.replace k N).prog := by
  rcases replace_cases P k N with h | ⟨hk, h⟩
  · rwa [h]
  rw [h]
  simp only [size, List.get_eq_getElem] at hk ⊢
  rw [set_eq_map hPn hk, mapUpdateTarget, List.map_map]
  refine NextsFollowBegin.map fun x hx s b t hn => ?_
  by_cases hxo : x.1 = P.prog[k].1
  · -- `x` is the replaced instruction: `N` takes its place and its `BEGIN` is before `k`
    simp only [Function.comp, if_pos hxo] at hn
    obtain ⟨b0, t0, hN0, rfl, -⟩ := RoseInstruction.mapTargets_eq_sparseIterNext hn
    obtain ⟨e, he, rfl, h2⟩ := hN s b0 t0 hN0
    have heo := fst_ne_of_mem_take hPn hk he
    have hxk : x = P.prog[k] := List.inj_on_of_nodup_map hPn hx (List.getElem_mem _) hxo
    exact ⟨e, hxk ▸ pair_sublist_of_mem_take hk he, by simp [Function.comp, heo],
      by simpa [Function.comp, heo] using h2⟩
  · simp only [Function.comp, if_neg hxo] at hn
    obtain ⟨b0, t0, hx0, rfl, -⟩ := RoseInstruction.mapTargets_eq_sparseIterNext hn
    obtain ⟨e, he, rfl, h2⟩ := hP x hx s b0 t0 hx0
    by_cases heo : e.1 = P.prog[k].1
    · -- the `BEGIN` itself is replaced, by another `BEGIN`
      have hcode := hb _ (List.getElem?_eq_getElem hk) ⟨x, hx, s, t0, heo ▸ hx0⟩
      exact ⟨e, he, by simp [Function.comp, heo], by simpa [Function.comp, heo] using hcode⟩
    · exact ⟨e, he, by simp [Function.comp, heo], by simpa [Function.comp, heo] using h2⟩

end Steps

/-! ## Top theorems -/

/-- **Every `NEXT` follows its `BEGIN`.**  When each `SPARSE_ITER_NEXT` handed over has its
`SPARSE_ITER_BEGIN` before it and `replace` puts a `BEGIN` wherever it replaces the `begin`
of a `NEXT`, every `NEXT` of a reachable program comes after the `BEGIN` its `begin` points
to; so no `NEXT`'s `begin` is the `END` that `insert(it, block)` and `add_block(block)` pop,
and their sweeps never take the `begin` branch of `update_target`. -/
theorem nextsFollowBegin_of_reachable {P : RoseProgram}
    (h : Reachable (fun P it ri => P.RefersInto ri ∧ P.NextBeginBefore it ri)
      (fun P it ri => P.RefersInto ri ∧ P.NextBeginBefore it ri ∧ P.BeginReplacedByBegin it ri) P) :
    (∀ x ∈ P.prog, ∀ s b t, x.2 = .roseInstrSparseIterNext s b t →
      ∃ e, [e, x] <+ P.prog ∧ e.1 = b ∧ e.2.code = .roseInstrSparseIterBegin) ∧
    ∀ (hne : P.prog ≠ []), ∀ x ∈ P.prog, ∀ s b t, x.2 = .roseInstrSparseIterNext s b t →
      b ≠ (P.prog.getLast hne).1 := by
  have hnfb : NextsFollowBegin P.prog := by
    induction h with
    | init => simp [NextsFollowBegin, RoseProgram.init]
    | insert _ _ _ _ hri ih => exact nextsFollowBegin_insert ih hri.2
    | insertBlock k _ hB _ ihP ihB => exact nextsFollowBegin_insertBlock k ihP ihB hB.ptrs_nodup
    | addBlock hP _ _ ihP ihB => exact nextsFollowBegin_addBlock ihP hP.ptrs_nodup ihB
    | replace _ _ hP _ hN ih => exact nextsFollowBegin_replace ih hP.ptrs_nodup hN.2.1 hN.2.2
  exact ⟨hnfb, fun hne _ hx _ _ _ hn => hnfb.begin_ne_last h.ptrs_nodup hx hn hne⟩

theorem nextsFollowBegin_of_reachable_pair :
    (∀ x ∈ (((RoseProgram.init 0).addBeforeEnd (1, .roseInstrSparseIterBegin 1 [(5, 0)] 0 false 0 0)).addBeforeEnd
        (2, .roseInstrSparseIterNext 0 1 0)).prog, ∀ s b t, x.2 = .roseInstrSparseIterNext s b t →
      ∃ e, [e, x] <+ (((RoseProgram.init 0).addBeforeEnd
          (1, .roseInstrSparseIterBegin 1 [(5, 0)] 0 false 0 0)).addBeforeEnd
          (2, .roseInstrSparseIterNext 0 1 0)).prog ∧
        e.1 = b ∧ e.2.code = .roseInstrSparseIterBegin) ∧
    ∀ (hne : (((RoseProgram.init 0).addBeforeEnd (1, .roseInstrSparseIterBegin 1 [(5, 0)] 0 false 0 0)).addBeforeEnd
        (2, .roseInstrSparseIterNext 0 1 0)).prog ≠ []),
      ∀ x ∈ (((RoseProgram.init 0).addBeforeEnd (1, .roseInstrSparseIterBegin 1 [(5, 0)] 0 false 0 0)).addBeforeEnd
        (2, .roseInstrSparseIterNext 0 1 0)).prog, ∀ s b t, x.2 = .roseInstrSparseIterNext s b t →
        b ≠ ((((RoseProgram.init 0).addBeforeEnd (1, .roseInstrSparseIterBegin 1 [(5, 0)] 0 false 0 0)).addBeforeEnd
          (2, .roseInstrSparseIterNext 0 1 0)).prog.getLast hne).1 :=
  nextsFollowBegin_of_reachable
    (.addBeforeEnd (.addBeforeEnd (.init 0) (by decide) ⟨by decide, fun _ _ _ h => by cases h⟩)
      (by decide) ⟨by decide, fun _ _ _ h => by cases h; exact ⟨_, List.mem_cons_self _ _, rfl, rfl⟩⟩)

end RoseProgram

end Rose
