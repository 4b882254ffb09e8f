import Vectorscan.Rose.Hash

/-!
# Instruction equivalence within two programs

`RoseInstruction::equiv(other, offsets, other_offsets)` calls `equiv_impl`, whose
`dynamic_cast` fails unless `other` is of the same class; then the class's
`equiv_to` compares the members with `==` and the targets through the two
programs' offset maps with `OffsetMap::at`, which throws on a missing key.  Here
`equiv` is `none` where an `at` would throw.

Every class but `SPARSE_ITER_BEGIN` compares exactly its non-target members and
the offsets of its slots.  `RoseInstrSparseIterBegin::equiv_to` compares
`iter_offset`, which `write` fills in, and never `num_keys`, which its `hash()`
and `operator==` both use:

    a.code ≠ .roseInstrSparseIterBegin → a.equiv b o o' = some true →
      a.payload = b.payload ∧ a.targets.map o = b.targets.map o'      (equiv_sound)
    a.equiv (a.mapTargets f) o o' = some (a.targets.map o == ...)     (equiv_mapTargets)
    a.equiv b o o' = some true → b.equiv a o' o = some true          (equiv_symm)
    a.equiv b o o' = some true → b.equiv c o' o'' = some true →
      a.equiv c o o'' = some true                                     (equiv_trans)
    (begin n jt t w io jo).equiv (begin n' jt' t' w' io' jo') o o' = some true ↔
      io = io' ∧ keys jt = keys jt' ∧ offsets agree                   (sparseIterBegin_equiv_iff)
-/

namespace Rose

/-- `RoseInstruction::OffsetMap` read through `at`: `none` where `at` throws. -/
abbrev OffsetMap := InstrPtr → Option UInt32

/-- `offsets.at(target) == other_offsets.at(otherTarget)`. -/
def offsetsEq (offsets otherOffsets : OffsetMap) (target otherTarget : InstrPtr) :
    Option Bool := do
  let a ← offsets target
  let b ← otherOffsets otherTarget
  pure (a == b)

/-- `equiv_to` of a `RoseInstrBaseOneTarget` class: the members' `==` tests, then the
offsets of the two targets, behind `&&`. -/
def equivOneTarget (membersEq : Bool) (offsets otherOffsets : OffsetMap)
    (target otherTarget : InstrPtr) : Option Bool :=
  if membersEq then offsetsEq offsets otherOffsets target otherTarget else pure false

/-- The jump-table loop of `RoseInstrSparseIterBegin::equiv_to`, run on tables of one
size: each key with `!=`, then the offsets of the two entries' instructions. -/
def jumpTableEquiv (offsets otherOffsets : OffsetMap) :
    List (UInt32 × InstrPtr) → List (UInt32 × InstrPtr) → Option Bool
  | (key, target) :: jt, (otherKey, otherTarget) :: otherJt =>
      if key ≠ otherKey then pure false else do
        if ← offsetsEq offsets otherOffsets target otherTarget then
          jumpTableEquiv offsets otherOffsets jt otherJt
        else pure false
  | _, _ => pure true

/-- `RoseInstrSparseIterBegin::equiv_to`: `iter_offset` and the target's offsets, then
the jump tables' sizes, then their entries. -/
def sparseIterBeginEquivTo (iterOffset otherIterOffset : UInt32) (target otherTarget : InstrPtr)
    (jt otherJt : List (UInt32 × InstrPtr)) (offsets otherOffsets : OffsetMap) : Option Bool :=
  if iterOffset ≠ otherIterOffset then pure false else do
    if !(← offsetsEq offsets otherOffsets target otherTarget) then pure false
    else if jt.length ≠ otherJt.length then pure false
    else jumpTableEquiv offsets otherOffsets jt otherJt

/-- `RoseInstrSparseIterNext::equiv_to`: `state`, then the offsets of `begin`, then those
of `target`. -/
def sparseIterNextEquivTo (state otherState : UInt32) (begin otherBegin target otherTarget : InstrPtr)
    (offsets otherOffsets : OffsetMap) : Option Bool :=
  if state ≠ otherState then pure false else do
    if ← offsetsEq offsets otherOffsets begin otherBegin then
      offsetsEq offsets otherOffsets target otherTarget
    else pure false

namespace RoseInstruction

/-- `equiv(other, offsets, other_offsets)`: `false` when `other` is of another class,
else the class's `equiv_to`. -/
def equiv (a b : RoseInstruction) (offsets otherOffsets : OffsetMap) : Option Bool :=
  match a with
  | roseInstrAnchoredDelay g t =>
      match b with
      | roseInstrAnchoredDelay g' t' => equivOneTarget (g == g') offsets otherOffsets t t'
      | _ => pure false
  | roseInstrCheckLitEarly m =>
      match b with
      | roseInstrCheckLitEarly m' => pure (m == m')
      | _ => pure false
  | roseInstrCheckGroups g =>
      match b with
      | roseInstrCheckGroups g' => pure (g == g')
      | _ => pure false
  | roseInstrCheckOnlyEod t =>
      match b with
      | roseInstrCheckOnlyEod t' => offsetsEq offsets otherOffsets t t'
      | _ => pure false
  | roseInstrCheckBounds lo hi t =>
      match b with
      | roseInstrCheckBounds lo' hi' t' =>
          equivOneTarget (lo == lo' && hi == hi') offsets otherOffsets t t'
      | _ => pure false
  | roseInstrCheckNotHandled k t =>
      match b with
      | roseInstrCheckNotHandled k' t' => equivOneTarget (k == k') offsets otherOffsets t t'
      | _ => pure false
  | roseInstrCheckLookaround i c t =>
      match b with
      | roseInstrCheckLookaround i' c' t' =>
          equivOneTarget (i == i' && c == c') offsets otherOffsets t t'
      | _ => pure false
  | roseInstrCheckMask a c n o t =>
      match b with
      | roseInstrCheckMask a' c' n' o' t' =>
          equivOneTarget (a == a' && c == c' && n == n' && o == o') offsets otherOffsets t t'
      | _ => pure false
  | roseInstrCheckMask32 a c n o t =>
      match b with
      | roseInstrCheckMask32 a' c' n' o' t' =>
          equivOneTarget (a == a' && c == c' && n == n' && o == o') offsets otherOffsets t t'
      | _ => pure false
  | roseInstrCheckByte a c n o t =>
      match b with
      | roseInstrCheckByte a' c' n' o' t' =>
          equivOneTarget (a == a' && c == c' && n == n' && o == o') offsets otherOffsets t t'
      | _ => pure false
  | roseInstrCheckInfix q l r t =>
      match b with
      | roseInstrCheckInfix q' l' r' t' =>
          equivOneTarget (q == q' && l == l' && r == r') offsets otherOffsets t t'
      | _ => pure false
  | roseInstrCheckPrefix q l r t =>
      match b with
      | roseInstrCheckPrefix q' l' r' t' =>
          equivOneTarget (q == q' && l == l' && r == r') offsets otherOffsets t t'
      | _ => pure false
  | roseInstrPushDelayed d i =>
      match b with
      | roseInstrPushDelayed d' i' => pure (d == d' && i == i')
      | _ => pure false
  | roseInstrRecordAnchored i =>
      match b with
      | roseInstrRecordAnchored i' => pure (i == i')
      | _ => pure false
  | roseInstrSomAdjust d =>
      match b with
      | roseInstrSomAdjust d' => pure (d == d')
      | _ => pure false
  | roseInstrSomLeftfix q l =>
      match b with
      | roseInstrSomLeftfix q' l' => pure (q == q' && l == l')
      | _ => pure false
  | roseInstrSomFromReport s =>
      match b with
      | roseInstrSomFromReport s' => pure (s == s')
      | _ => pure false
  | roseInstrReportSomInt s =>
      match b with
      | roseInstrReportSomInt s' => pure (s == s')
      | _ => pure false
  | roseInstrReportSomAware s =>
      match b with
      | roseInstrReportSomAware s' => pure (s == s')
      | _ => pure false
  | roseInstrTriggerInfix c q e =>
      match b with
      | roseInstrTriggerInfix c' q' e' => pure (c == c' && q == q' && e == e')
      | _ => pure false
  | roseInstrTriggerSuffix q e =>
      match b with
      | roseInstrTriggerSuffix q' e' => pure (q == q' && e == e')
      | _ => pure false
  | roseInstrDedupe s d o t =>
      match b with
      | roseInstrDedupe s' d' o' t' =>
          equivOneTarget (s == s' && d == d' && o == o') offsets otherOffsets t t'
      | _ => pure false
  | roseInstrDedupeSom s d o t =>
      match b with
      | roseInstrDedupeSom s' d' o' t' =>
          equivOneTarget (s == s' && d == d' && o == o') offsets otherOffsets t t'
      | _ => pure false
  | roseInstrReportChain e d =>
      match b with
      | roseInstrReportChain e' d' => pure (e == e' && d == d')
      | _ => pure false
  | roseInstrReport m o =>
      match b with
      | roseInstrReport m' o' => pure (m == m' && o == o')
      | _ => pure false
  | roseInstrReportSom m o =>
      match b with
      | roseInstrReportSom m' o' => pure (m == m' && o == o')
      | _ => pure false
  | roseInstrFinalReport m o =>
      match b with
      | roseInstrFinalReport m' o' => pure (m == m' && o == o')
      | _ => pure false
  | roseInstrReportExhaust m o e =>
      match b with
      | roseInstrReportExhaust m' o' e' => pure (m == m' && o == o' && e == e')
      | _ => pure false
  | roseInstrReportSomExhaust m o e =>
      match b with
      | roseInstrReportSomExhaust m' o' e' => pure (m == m' && o == o' && e == e')
      | _ => pure false
  | roseInstrDedupeAndReport s d m o t =>
      match b with
      | roseInstrDedupeAndReport s' d' m' o' t' =>
          equivOneTarget (s == s' && d == d' && m == m' && o == o') offsets otherOffsets t t'
      | _ => pure false
  | roseInstrCheckExhausted e t =>
      match b with
      | roseInstrCheckExhausted e' t' => equivOneTarget (e == e') offsets otherOffsets t t'
      | _ => pure false
  | roseInstrCheckMinLength a l t =>
      match b with
      | roseInstrCheckMinLength a' l' t' =>
          equivOneTarget (a == a' && l == l') offsets otherOffsets t t'
      | _ => pure false
  | roseInstrSetState i =>
      match b with
      | roseInstrSetState i' => pure (i == i')
      | _ => pure false
  | roseInstrSetGroups g =>
      match b with
      | roseInstrSetGroups g' => pure (g == g')
      | _ => pure false
  | roseInstrSquashGroups g =>
      match b with
      | roseInstrSquashGroups g' => pure (g == g')
      | _ => pure false
  | roseInstrCheckState i t =>
      match b with
      | roseInstrCheckState i' t' => equivOneTarget (i == i') offsets otherOffsets t t'
      | _ => pure false
  | roseInstrSparseIterBegin _ jt t _ io _ =>
      match b with
      | roseInstrSparseIterBegin _ jt' t' _ io' _ =>
          sparseIterBeginEquivTo io io' t t' jt jt' offsets otherOffsets
      | _ => pure false
  | roseInstrSparseIterNext s bg t =>
      match b with
      | roseInstrSparseIterNext s' bg' t' =>
          sparseIterNextEquivTo s s' bg bg' t t' offsets otherOffsets
      | _ => pure false
  | roseInstrSparseIterAny n ks t =>
      match b with
      | roseInstrSparseIterAny n' ks' t' =>
          equivOneTarget (n == n' && ks == ks') offsets otherOffsets t t'
      | _ => pure false
  | roseInstrEnginesEod i =>
      match b with
      | roseInstrEnginesEod i' => pure (i == i')
      | _ => pure false
  | roseInstrCatchUp =>
      match b with
      | roseInstrCatchUp => pure true
      | _ => pure false
  | roseInstrCatchUpMpv =>
      match b with
      | roseInstrCatchUpMpv => pure true
      | _ => pure false
  | roseInstrSomZero =>
      match b with
      | roseInstrSomZero => pure true
      | _ => pure false
  | roseInstrSuffixesEod =>
      match b with
      | roseInstrSuffixesEod => pure true
      | _ => pure false
  | roseInstrMatcherEod =>
      match b with
      | roseInstrMatcherEod => pure true
      | _ => pure false
  | roseInstrEnd =>
      match b with
      | roseInstrEnd => pure true
      | _ => pure false

end RoseInstruction

/-! ## Lemmas -/

theorem bind_ite_eq_some_true {x y : Option Bool} :
    (x.bind fun b => if b = true then y else some false) = some true ↔
      x = some true ∧ y = some true := by
  cases x with
  | none => simp
  | some b => cases b <;> simp

theorem offsetsEq_eq_some_true {o o' : OffsetMap} {t t' : InstrPtr} :
    offsetsEq o o' t t' = some true ↔ (o t).isSome ∧ o t = o' t' := by
  cases h : o t <;> cases h' : o' t' <;> simp [offsetsEq, h, h']

theorem offsetsEq_of_isSome {o o' : OffsetMap} {t t' : InstrPtr} (h : (o t).isSome)
    (h' : (o' t').isSome) : offsetsEq o o' t t' = some (decide (o t = o' t')) := by
  obtain ⟨x, hx⟩ := Option.isSome_iff_exists.1 h
  obtain ⟨y, hy⟩ := Option.isSome_iff_exists.1 h'
  simp [offsetsEq, hx, hy, beq_eq_decide]

theorem offsetsEq_isSome {o o' : OffsetMap} {t t' : InstrPtr} (h : (o t).isSome)
    (h' : (o' t').isSome) : (offsetsEq o o' t t').isSome := by
  simp [offsetsEq_of_isSome h h']

theorem equivOneTarget_eq_some_true {m : Bool} {o o' : OffsetMap} {t t' : InstrPtr} :
    equivOneTarget m o o' t t' = some true ↔ m = true ∧ (o t).isSome ∧ o t = o' t' := by
  cases m <;> simp [equivOneTarget, offsetsEq_eq_some_true]

theorem equivOneTarget_of_isSome {m : Bool} {o o' : OffsetMap} {t t' : InstrPtr}
    (h : (o t).isSome) (h' : (o' t').isSome) :
    equivOneTarget m o o' t t' = some (m && decide (o t = o' t')) := by
  cases m <;> simp [equivOneTarget, offsetsEq_of_isSome h h']

theorem equivOneTarget_isSome {m : Bool} {o o' : OffsetMap} {t t' : InstrPtr}
    (h : (o t).isSome) (h' : (o' t').isSome) : (equivOneTarget m o o' t t').isSome := by
  simp [equivOneTarget_of_isSome h h']

theorem jumpTableEquiv_eq_some_true {o o' : OffsetMap} :
    ∀ {jt jt' : List (UInt32 × InstrPtr)}, jt.length = jt'.length →
      (jumpTableEquiv o o' jt jt' = some true ↔
        (∀ j ∈ jt, (o j.2).isSome) ∧
          jt.map (fun j => (j.1, o j.2)) = jt'.map (fun j => (j.1, o' j.2)))
  | (k, t) :: jt, (k', t') :: jt', hl => by
    have ih := @jumpTableEquiv_eq_some_true o o' jt jt' (by simpa using hl)
    by_cases hk : k = k'
    · simp [jumpTableEquiv, hk, bind_ite_eq_some_true, offsetsEq_eq_some_true, ih]
      tauto
    · simp [jumpTableEquiv, hk]
  | [], [], _ => by simp [jumpTableEquiv]
  | [], _ :: _, hl | _ :: _, [], hl => by simp at hl

theorem jumpTableEquiv_of_isSome {o o' : OffsetMap} :
    ∀ {jt jt' : List (UInt32 × InstrPtr)}, (∀ j ∈ jt, (o j.2).isSome) →
      (∀ j ∈ jt', (o' j.2).isSome) → jt.length = jt'.length →
      jumpTableEquiv o o' jt jt' =
        some (decide (jt.map (fun j => (j.1, o j.2)) = jt'.map (fun j => (j.1, o' j.2))))
  | (k, t) :: jt, (k', t') :: jt', h, h', hl => by
    simp only [List.mem_cons, forall_eq_or_imp] at h h'
    have ih := jumpTableEquiv_of_isSome h.2 h'.2 (by simpa using hl)
    by_cases hk : k = k' <;> by_cases ht : o t = o' t' <;>
      simp [jumpTableEquiv, offsetsEq_of_isSome h.1 h'.1, hk, ht, ih]
  | [], [], _, _, _ => by simp [jumpTableEquiv]
  | [], _ :: _, _, _, hl | _ :: _, [], _, _, hl => by simp at hl

theorem sparseIterBeginEquivTo_of_isSome {io io' : UInt32} {t t' : InstrPtr}
    {jt jt' : List (UInt32 × InstrPtr)} {o o' : OffsetMap} (ht : (o t).isSome)
    (ht' : (o' t').isSome) (hj : ∀ j ∈ jt, (o j.2).isSome) (hj' : ∀ j ∈ jt', (o' j.2).isSome) :
    sparseIterBeginEquivTo io io' t t' jt jt' o o' =
      some (decide (io = io' ∧ o t = o' t' ∧
        jt.map (fun j => (j.1, o j.2)) = jt'.map (fun j => (j.1, o' j.2)))) := by
  by_cases hl : jt.length = jt'.length
  · by_cases hio : io = io' <;> by_cases hot : o t = o' t' <;>
      simp [sparseIterBeginEquivTo, offsetsEq_of_isSome ht ht', hio, hot, hl,
        jumpTableEquiv_of_isSome hj hj' hl]
  · have : jt.map (fun j => (j.1, o j.2)) ≠ jt'.map (fun j => (j.1, o' j.2)) :=
      fun e => hl (by simpa using congrArg List.length e)
    by_cases hio : io = io' <;> by_cases hot : o t = o' t' <;>
      simp [sparseIterBeginEquivTo, offsetsEq_of_isSome ht ht', hio, hot, hl, this]

theorem sparseIterBeginEquivTo_eq_some_true {io io' : UInt32} {t t' : InstrPtr}
    {jt jt' : List (UInt32 × InstrPtr)} {o o' : OffsetMap} :
    sparseIterBeginEquivTo io io' t t' jt jt' o o' = some true ↔
      io = io' ∧ ((o t).isSome ∧ o t = o' t') ∧ (∀ j ∈ jt, (o j.2).isSome) ∧
        jt.map (fun j => (j.1, o j.2)) = jt'.map (fun j => (j.1, o' j.2)) := by
  rw [← offsetsEq_eq_some_true]
  unfold sparseIterBeginEquivTo
  by_cases hio : io = io'
  · cases h : offsetsEq o o' t t' with
    | none => simp [hio, h]
    | some b =>
      cases b
      · simp [hio, h]
      · by_cases hl : jt.length = jt'.length
        · simp [hio, h, hl, jumpTableEquiv_eq_some_true hl]
        · simp only [hio, h, hl, ne_eq, not_true_eq_false, ↓reduceIte, Option.pure_def,
            Option.bind_eq_bind, Option.some_bind, Option.some.injEq, Bool.not_true, Bool.false_eq_true,
            not_false_eq_true, true_and, reduceCtorEq, false_iff, not_and]
          exact fun _ e => hl (by simpa using congrArg List.length e)
  · simp [hio]

theorem sparseIterNextEquivTo_eq_some_true {s s' : UInt32} {b b' t t' : InstrPtr}
    {o o' : OffsetMap} :
    sparseIterNextEquivTo s s' b b' t t' o o' = some true ↔
      s = s' ∧ ((o b).isSome ∧ o b = o' b') ∧ (o t).isSome ∧ o t = o' t' := by
  by_cases hs : s = s' <;>
    simp [sparseIterNextEquivTo, hs, bind_ite_eq_some_true, offsetsEq_eq_some_true]

theorem sparseIterNextEquivTo_of_isSome {s s' : UInt32} {b b' t t' : InstrPtr}
    {o o' : OffsetMap} (hb : (o b).isSome) (hb' : (o' b').isSome) (ht : (o t).isSome)
    (ht' : (o' t').isSome) :
    sparseIterNextEquivTo s s' b b' t t' o o' = some (decide (s = s' ∧ o b = o' b' ∧ o t = o' t')) := by
  by_cases hs : s = s' <;> by_cases hob : o b = o' b' <;>
    simp [sparseIterNextEquivTo, hs, hob, offsetsEq_of_isSome hb hb', offsetsEq_of_isSome ht ht']

/-- `==` on offsets is symmetric, and `at` throws on one side exactly when it throws on the
other. -/
theorem offsetsEq_comm (o o' : OffsetMap) (t t' : InstrPtr) :
    offsetsEq o o' t t' = offsetsEq o' o t' t := by
  cases h : o t <;> cases h' : o' t' <;> simp [offsetsEq, h, h', Bool.beq_comm]

theorem equivOneTarget_comm (m : Bool) (o o' : OffsetMap) (t t' : InstrPtr) :
    equivOneTarget m o o' t t' = equivOneTarget m o' o t' t := by
  rw [equivOneTarget, equivOneTarget, offsetsEq_comm]

theorem sparseIterNextEquivTo_comm (s s' : UInt32) (b b' t t' : InstrPtr) (o o' : OffsetMap) :
    sparseIterNextEquivTo s s' b b' t t' o o' = sparseIterNextEquivTo s' s b' b t' t o' o := by
  simp only [sparseIterNextEquivTo, offsetsEq_comm o o', ne_comm]

theorem jumpTableEquiv_comm (o o' : OffsetMap) :
    ∀ jt jt' : List (UInt32 × InstrPtr), jumpTableEquiv o o' jt jt' = jumpTableEquiv o' o jt' jt
  | (k, t) :: jt, (k', t') :: jt' => by
    simp only [jumpTableEquiv, offsetsEq_comm o o', ne_comm, jumpTableEquiv_comm o o' jt jt']
  | [], [] | [], _ :: _ | _ :: _, [] => by simp [jumpTableEquiv]

theorem sparseIterBeginEquivTo_comm (io io' : UInt32) (t t' : InstrPtr)
    (jt jt' : List (UInt32 × InstrPtr)) (o o' : OffsetMap) :
    sparseIterBeginEquivTo io io' t t' jt jt' o o' =
      sparseIterBeginEquivTo io' io t' t jt' jt o' o := by
  simp only [sparseIterBeginEquivTo, offsetsEq_comm o o', ne_comm, jumpTableEquiv_comm o o']

theorem sparseIterBeginEquivTo_trans {io io' io'' : UInt32} {t t' t'' : InstrPtr}
    {jt jt' jt'' : List (UInt32 × InstrPtr)} {o o' o'' : OffsetMap}
    (h : sparseIterBeginEquivTo io io' t t' jt jt' o o' = some true)
    (h' : sparseIterBeginEquivTo io' io'' t' t'' jt' jt'' o' o'' = some true) :
    sparseIterBeginEquivTo io io'' t t'' jt jt'' o o'' = some true := by
  rw [sparseIterBeginEquivTo_eq_some_true] at h h' ⊢
  obtain ⟨rfl, ⟨ht, et⟩, hj, ej⟩ := h
  obtain ⟨rfl, ⟨-, et'⟩, -, ej'⟩ := h'
  exact ⟨rfl, ⟨ht, et.trans et'⟩, hj, ej.trans ej'⟩

namespace RoseInstruction

/-! ## Top theorems -/

/-- **No `at` throws when the maps cover the slots.** -/
theorem equiv_isSome {a b : RoseInstruction} {o o' : OffsetMap}
    (ha : ∀ t ∈ a.targets, (o t).isSome) (hb : ∀ t ∈ b.targets, (o' t).isSome) :
    (a.equiv b o o').isSome := by
  cases a <;> (dsimp only [equiv]; split) <;> first
    | rfl
    | exact equivOneTarget_isSome (ha _ (List.mem_singleton_self _)) (hb _ (List.mem_singleton_self _))
    | exact offsetsEq_isSome (ha _ (List.mem_singleton_self _)) (hb _ (List.mem_singleton_self _))
    | simp only [targets, List.mem_cons, List.mem_singleton, List.mem_map,
        forall_eq_or_imp, forall_eq] at ha hb
  · rw [sparseIterBeginEquivTo_of_isSome ha.1 hb.1 (fun j hj => ha.2 _ ⟨j, hj, rfl⟩)
      (fun j hj => hb.2 _ ⟨j, hj, rfl⟩)]
    rfl
  · rw [sparseIterNextEquivTo_of_isSome ha.1 hb.1 ha.2.1 hb.2.1]
    rfl

/-- **Soundness, every class but `SPARSE_ITER_BEGIN`.**  Equivalent instructions have
one opcode and the same non-target members, and their slots have the same offsets. -/
theorem equiv_sound {a b : RoseInstruction} {o o' : OffsetMap}
    (ha : a.code ≠ .roseInstrSparseIterBegin) (h : a.equiv b o o' = some true) :
    a.payload = b.payload ∧ a.targets.map o = b.targets.map o' := by
  cases a <;> (dsimp only [equiv] at h; split at h) <;> first
    | (cases h <;> exact ⟨rfl, rfl⟩)
    | (dsimp only [payload, mapTargets, targets, code] at ha ⊢
       simp_all [equivOneTarget_eq_some_true, offsetsEq_eq_some_true,
         sparseIterNextEquivTo_eq_some_true])

/-- **Equivalence modulo targets.**  An instruction and a copy of it with its targets
moved by `f` are equivalent exactly when every slot keeps its offset. -/
theorem equiv_mapTargets (a : RoseInstruction) (f : InstrPtr → InstrPtr) {o o' : OffsetMap}
    (ho : ∀ t ∈ a.targets, (o t).isSome) (ho' : ∀ t ∈ a.targets, (o' (f t)).isSome) :
    a.equiv (a.mapTargets f) o o' = some (decide (a.targets.map o = a.targets.map (o' ∘ f))) := by
  cases a <;> simp only [targets, List.mem_cons, List.mem_singleton, List.mem_map,
    forall_eq_or_imp, forall_eq, List.not_mem_nil, imp_false, forall_const,
    IsEmpty.forall_iff, implies_true] at ho ho' <;>
    dsimp only [equiv, mapTargets, targets] <;>
    simp [offsetsEq_of_isSome, equivOneTarget_of_isSome, *]
  case roseInstrSparseIterBegin =>
    rw [sparseIterBeginEquivTo_of_isSome ho.1 ho'.1 (fun j hj => ho.2 _ ⟨j, hj, rfl⟩)
      (fun j hj => by
        obtain ⟨j', hj', rfl⟩ := List.mem_map.1 hj
        exact ho'.2 _ ⟨j', hj', rfl⟩)]
    simp only [List.map_map, List.map_inj_left, List.cons.injEq, Function.comp_def,
      Prod.mk.injEq, true_and, Bool.decide_and]
  case roseInstrSparseIterNext =>
    rw [sparseIterNextEquivTo_of_isSome ho.1 ho'.1 ho.2.1 ho'.2.1]
    simp

/-- **`equiv` is symmetric.**  Each class's `equiv_to` compares its members with `==` and
its slots' offsets with `==`, both symmetric. -/
theorem equiv_symm {a b : RoseInstruction} {o o' : OffsetMap} (h : a.equiv b o o' = some true) :
    b.equiv a o' o = some true := by
  cases a <;> (dsimp only [equiv] at h; split at h) <;> first
    | (cases h; done)
    | dsimp only [equiv]
      simpa only [equivOneTarget_comm _ o, offsetsEq_comm o,
        sparseIterNextEquivTo_comm _ _ _ _ _ _ o, sparseIterBeginEquivTo_comm _ _ _ _ _ _ o,
        Bool.beq_comm] using h

/-- **`equiv` is transitive**, the middle instruction read through one offset map. -/
theorem equiv_trans {a b c : RoseInstruction} {o o' o'' : OffsetMap}
    (h : a.equiv b o o' = some true) (h' : b.equiv c o' o'' = some true) :
    a.equiv c o o'' = some true := by
  cases a <;> (dsimp only [equiv] at h; split at h) <;> first
    | (cases h; done)
    | (dsimp only [equiv] at h'; split at h') <;> first
      | (cases h'; done)
      | (dsimp only [equiv]
         simp only [equivOneTarget_eq_some_true, offsetsEq_eq_some_true,
          sparseIterNextEquivTo_eq_some_true, Option.pure_def, Option.some.injEq, Bool.and_eq_true,
          beq_iff_eq] at h h' ⊢
         try casesm* _ ∧ _
         all_goals simp_all)
      | exact sparseIterBeginEquivTo_trans h h'

/-- **`SPARSE_ITER_BEGIN` compares `iter_offset`, not `num_keys`.**  Two of them are
equivalent exactly when their `iter_offset`s agree, their targets have one offset, and
their jump tables list the same keys with instructions at the same offsets;
`num_keys`, `is_written` and `jump_table_offset` play no part. -/
theorem sparseIterBegin_equiv_iff (n n' : UInt32) (jt jt' : List (UInt32 × InstrPtr))
    (t t' : InstrPtr) (w w' : Bool) (io io' jo jo' : UInt32) (o o' : OffsetMap) :
    (roseInstrSparseIterBegin n jt t w io jo).equiv
        (roseInstrSparseIterBegin n' jt' t' w' io' jo') o o' = some true ↔
      io = io' ∧ ((o t).isSome ∧ o t = o' t') ∧ (∀ j ∈ jt, (o j.2).isSome) ∧
        jt.map (fun j => (j.1, o j.2)) = jt'.map (fun j => (j.1, o' j.2)) :=
  sparseIterBeginEquivTo_eq_some_true

/-- Two fresh iterators that differ in `num_keys` only are equivalent, and an iterator is
not equivalent to itself once `write` has set its `iter_offset`. -/
theorem sparseIterBegin_equiv_numKeys_iterOffset :
    (roseInstrSparseIterBegin 8 [(3, 1), (7, 2)] 0 false 0 0).equiv
        (roseInstrSparseIterBegin 16 [(3, 1), (7, 2)] 0 false 0 0)
        (fun p => some p.toUInt32) (fun p => some p.toUInt32) = some true ∧
    (roseInstrSparseIterBegin 8 [(3, 1), (7, 2)] 0 false 0 0).equiv
        (roseInstrSparseIterBegin 8 [(3, 1), (7, 2)] 0 true 64 128)
        (fun p => some p.toUInt32) (fun p => some p.toUInt32) = some false := by
  decide

/-- Whatever the opcode values, two equivalent iterators that differ in `num_keys` only
hash differently. -/
theorem sparseIterBegin_equiv_hash_ne (opcode : RoseInstructionCode → UInt8) :
    (roseInstrSparseIterBegin 1 [] 0 false 0 0).equiv (roseInstrSparseIterBegin 2 [] 0 false 0 0)
        (fun p => some p.toUInt32) (fun p => some p.toUInt32) = some true ∧
    (roseInstrSparseIterBegin 1 [] 0 false 0 0).hash opcode ≠
      (roseInstrSparseIterBegin 2 [] 0 false 0 0).hash opcode := by
  refine ⟨by decide, fun h => ?_⟩
  simp only [hash, hashedMembers, code, List.map_nil, List.foldl_cons, List.foldl_nil] at h
  exact absurd (hashCombine_injective _ h) (by decide)

end RoseInstruction

end Rose
