import Mathlib.Data.List.Basic

/-!
# Rose instructions: the opcode catalogue and the instruction classes

`rose_build_program.h` declares one class per opcode, each derived from
`RoseInstrBaseOneTarget` (a single `target` member), `RoseInstrBaseNoTargets`,
`RoseInstrBaseTrivial` (no members at all) or, for `SPARSE_ITER_BEGIN` and
`SPARSE_ITER_NEXT`, from `RoseInstrBase` directly.  Here an instruction is one
constructor per class with the class's data members as fields, and a
`const RoseInstruction *` is the address of the object it points to
(`InstrPtr`).

Every `update_target` has the same shape: it rewrites some of the pointer
members and nothing else.  `mapTargets f` applies `f` to exactly those members
(the target slots, listed in member order by `targets`), and `updateTarget` is
`mapTargets` with the redirection `old ↦ new`.  `payload` forgets the target
slots and the emission state that `SPARSE_ITER_BEGIN::write` fills in:

    (x.mapTargets f).targets = x.targets.map f          (targets_mapTargets)
    (x.mapTargets f).payload = x.payload                (payload_mapTargets)
-/

namespace Rose

/-- The opcodes of `rose_build_program.h`, `ROSE_INSTR_*`.  The enum is declared in
`rose_program.h`, with its numeric values; the hash takes those values as a parameter. -/
inductive RoseInstructionCode where
  | roseInstrAnchoredDelay | roseInstrCheckLitEarly | roseInstrCheckGroups
  | roseInstrCheckOnlyEod | roseInstrCheckBounds | roseInstrCheckNotHandled
  | roseInstrCheckLookaround | roseInstrCheckMask | roseInstrCheckMask32
  | roseInstrCheckByte | roseInstrCheckInfix | roseInstrCheckPrefix
  | roseInstrPushDelayed | roseInstrRecordAnchored | roseInstrCatchUp
  | roseInstrCatchUpMpv | roseInstrSomAdjust | roseInstrSomLeftfix
  | roseInstrSomFromReport | roseInstrSomZero | roseInstrTriggerInfix
  | roseInstrTriggerSuffix | roseInstrDedupe | roseInstrDedupeSom
  | roseInstrReportChain | roseInstrReportSomInt | roseInstrReportSomAware
  | roseInstrReport | roseInstrReportExhaust | roseInstrReportSom
  | roseInstrReportSomExhaust | roseInstrDedupeAndReport | roseInstrFinalReport
  | roseInstrCheckExhausted | roseInstrCheckMinLength | roseInstrSetState
  | roseInstrSetGroups | roseInstrSquashGroups | roseInstrCheckState
  | roseInstrSparseIterBegin | roseInstrSparseIterNext | roseInstrSparseIterAny
  | roseInstrEnginesEod | roseInstrSuffixesEod | roseInstrMatcherEod
  | roseInstrEnd
  deriving DecidableEq, Repr

/-- A `const RoseInstruction *`: the address of an instruction object. -/
abbrev InstrPtr := Nat

/-- `std::array<u8, 32>`, the masks of `CHECK_MASK_32`. -/
abbrev Array32 := { bytes : List UInt8 // bytes.length = 32 }

/-- `som_operation` (declared in `som/som_operation.h`): the two members `hash()`
reads, and the rest of the struct as one value, since `equiv_to` compares the
whole struct with `memcmp`. -/
structure SomOperation where
  type : UInt8
  onmatch : UInt32
  aux : UInt64
  deriving DecidableEq, Repr

/-- The instruction classes of `rose_build_program.h`, one constructor each, with the
class's members in declaration order.  `rose_group` and `u64a` are `UInt64`,
`ReportID` is `UInt32`, `s32` is `BitVec 32`.  `SPARSE_ITER_BEGIN` also carries its
private `mutable` emission state (`is_written`, `iter_offset`, `jump_table_offset`). -/
inductive RoseInstruction where
  | roseInstrAnchoredDelay (groups : UInt64) (target : InstrPtr)
  | roseInstrCheckLitEarly (minOffset : UInt32)
  | roseInstrCheckGroups (groups : UInt64)
  | roseInstrCheckOnlyEod (target : InstrPtr)
  | roseInstrCheckBounds (minBound maxBound : UInt64) (target : InstrPtr)
  | roseInstrCheckNotHandled (key : UInt32) (target : InstrPtr)
  | roseInstrCheckLookaround (index count : UInt32) (target : InstrPtr)
  | roseInstrCheckMask (andMask cmpMask negMask : UInt64) (offset : BitVec 32)
      (target : InstrPtr)
  | roseInstrCheckMask32 (andMask cmpMask : Array32) (negMask : UInt32)
      (offset : BitVec 32) (target : InstrPtr)
  | roseInstrCheckByte (andMask cmpMask negation : UInt8) (offset : BitVec 32)
      (target : InstrPtr)
  | roseInstrCheckInfix (queue lag report : UInt32) (target : InstrPtr)
  | roseInstrCheckPrefix (queue lag report : UInt32) (target : InstrPtr)
  | roseInstrPushDelayed (delay : UInt8) (index : UInt32)
  | roseInstrRecordAnchored (id : UInt32)
  | roseInstrCatchUp
  | roseInstrCatchUpMpv
  | roseInstrSomAdjust (distance : UInt32)
  | roseInstrSomLeftfix (queue lag : UInt32)
  | roseInstrSomFromReport (som : SomOperation)
  | roseInstrSomZero
  | roseInstrTriggerInfix (cancel : UInt8) (queue event : UInt32)
  | roseInstrTriggerSuffix (queue event : UInt32)
  | roseInstrDedupe (quashSom : UInt8) (dkey : UInt32) (offsetAdjust : BitVec 32)
      (target : InstrPtr)
  | roseInstrDedupeSom (quashSom : UInt8) (dkey : UInt32) (offsetAdjust : BitVec 32)
      (target : InstrPtr)
  | roseInstrReportChain (event : UInt32) (topSquashDistance : UInt64)
  | roseInstrReportSomInt (som : SomOperation)
  | roseInstrReportSomAware (som : SomOperation)
  | roseInstrReport (onmatch : UInt32) (offsetAdjust : BitVec 32)
  | roseInstrReportExhaust (onmatch : UInt32) (offsetAdjust : BitVec 32) (ekey : UInt32)
  | roseInstrReportSom (onmatch : UInt32) (offsetAdjust : BitVec 32)
  | roseInstrReportSomExhaust (onmatch : UInt32) (offsetAdjust : BitVec 32) (ekey : UInt32)
  | roseInstrDedupeAndReport (quashSom : UInt8) (dkey onmatch : UInt32)
      (offsetAdjust : BitVec 32) (target : InstrPtr)
  | roseInstrFinalReport (onmatch : UInt32) (offsetAdjust : BitVec 32)
  | roseInstrCheckExhausted (ekey : UInt32) (target : InstrPtr)
  | roseInstrCheckMinLength (endAdj : BitVec 32) (minLength : UInt64) (target : InstrPtr)
  | roseInstrSetState (index : UInt32)
  | roseInstrSetGroups (groups : UInt64)
  | roseInstrSquashGroups (groups : UInt64)
  | roseInstrCheckState (index : UInt32) (target : InstrPtr)
  | roseInstrSparseIterBegin (numKeys : UInt32) (jumpTable : List (UInt32 × InstrPtr))
      (target : InstrPtr) (isWritten : Bool) (iterOffset jumpTableOffset : UInt32)
  | roseInstrSparseIterNext (state : UInt32) (begin target : InstrPtr)
  | roseInstrSparseIterAny (numKeys : UInt32) (keys : List UInt32) (target : InstrPtr)
  | roseInstrEnginesEod (iterOffset : UInt32)
  | roseInstrSuffixesEod
  | roseInstrMatcherEod
  | roseInstrEnd
  deriving Repr

namespace RoseInstruction

/-! ## Opcode and target slots -/

/-- `code()`: the `Opcode` template argument of the class. -/
def code : RoseInstruction → RoseInstructionCode
  | roseInstrAnchoredDelay .. => .roseInstrAnchoredDelay
  | roseInstrCheckLitEarly .. => .roseInstrCheckLitEarly
  | roseInstrCheckGroups .. => .roseInstrCheckGroups
  | roseInstrCheckOnlyEod .. => .roseInstrCheckOnlyEod
  | roseInstrCheckBounds .. => .roseInstrCheckBounds
  | roseInstrCheckNotHandled .. => .roseInstrCheckNotHandled
  | roseInstrCheckLookaround .. => .roseInstrCheckLookaround
  | roseInstrCheckMask .. => .roseInstrCheckMask
  | roseInstrCheckMask32 .. => .roseInstrCheckMask32
  | roseInstrCheckByte .. => .roseInstrCheckByte
  | roseInstrCheckInfix .. => .roseInstrCheckInfix
  | roseInstrCheckPrefix .. => .roseInstrCheckPrefix
  | roseInstrPushDelayed .. => .roseInstrPushDelayed
  | roseInstrRecordAnchored .. => .roseInstrRecordAnchored
  | roseInstrCatchUp => .roseInstrCatchUp
  | roseInstrCatchUpMpv => .roseInstrCatchUpMpv
  | roseInstrSomAdjust .. => .roseInstrSomAdjust
  | roseInstrSomLeftfix .. => .roseInstrSomLeftfix
  | roseInstrSomFromReport .. => .roseInstrSomFromReport
  | roseInstrSomZero => .roseInstrSomZero
  | roseInstrTriggerInfix .. => .roseInstrTriggerInfix
  | roseInstrTriggerSuffix .. => .roseInstrTriggerSuffix
  | roseInstrDedupe .. => .roseInstrDedupe
  | roseInstrDedupeSom .. => .roseInstrDedupeSom
  | roseInstrReportChain .. => .roseInstrReportChain
  | roseInstrReportSomInt .. => .roseInstrReportSomInt
  | roseInstrReportSomAware .. => .roseInstrReportSomAware
  | roseInstrReport .. => .roseInstrReport
  | roseInstrReportExhaust .. => .roseInstrReportExhaust
  | roseInstrReportSom .. => .roseInstrReportSom
  | roseInstrReportSomExhaust .. => .roseInstrReportSomExhaust
  | roseInstrDedupeAndReport .. => .roseInstrDedupeAndReport
  | roseInstrFinalReport .. => .roseInstrFinalReport
  | roseInstrCheckExhausted .. => .roseInstrCheckExhausted
  | roseInstrCheckMinLength .. => .roseInstrCheckMinLength
  | roseInstrSetState .. => .roseInstrSetState
  | roseInstrSetGroups .. => .roseInstrSetGroups
  | roseInstrSquashGroups .. => .roseInstrSquashGroups
  | roseInstrCheckState .. => .roseInstrCheckState
  | roseInstrSparseIterBegin .. => .roseInstrSparseIterBegin
  | roseInstrSparseIterNext .. => .roseInstrSparseIterNext
  | roseInstrSparseIterAny .. => .roseInstrSparseIterAny
  | roseInstrEnginesEod .. => .roseInstrEnginesEod
  | roseInstrSuffixesEod => .roseInstrSuffixesEod
  | roseInstrMatcherEod => .roseInstrMatcherEod
  | roseInstrEnd => .roseInstrEnd

/-- The target slots in member order: the `target` of every `RoseInstrBaseOneTarget`
class, `target` then each jump-table entry of `SPARSE_ITER_BEGIN`, `begin` then
`target` of `SPARSE_ITER_NEXT`. -/
def targets : RoseInstruction → List InstrPtr
  | roseInstrAnchoredDelay _ t | roseInstrCheckOnlyEod t | roseInstrCheckBounds _ _ t
  | roseInstrCheckNotHandled _ t | roseInstrCheckLookaround _ _ t
  | roseInstrCheckMask _ _ _ _ t | roseInstrCheckMask32 _ _ _ _ t
  | roseInstrCheckByte _ _ _ _ t | roseInstrCheckInfix _ _ _ t
  | roseInstrCheckPrefix _ _ _ t | roseInstrDedupe _ _ _ t | roseInstrDedupeSom _ _ _ t
  | roseInstrDedupeAndReport _ _ _ _ t | roseInstrCheckExhausted _ t
  | roseInstrCheckMinLength _ _ t | roseInstrCheckState _ t
  | roseInstrSparseIterAny _ _ t => [t]
  | roseInstrSparseIterBegin _ jumpTable t .. => t :: jumpTable.map Prod.snd
  | roseInstrSparseIterNext _ b t => [b, t]
  | _ => []

/-- The instruction with `f` applied to each target slot and every other member kept:
the common shape of the `update_target` overrides. -/
def mapTargets (f : InstrPtr → InstrPtr) : RoseInstruction → RoseInstruction
  | roseInstrAnchoredDelay g t => roseInstrAnchoredDelay g (f t)
  | roseInstrCheckOnlyEod t => roseInstrCheckOnlyEod (f t)
  | roseInstrCheckBounds a b t => roseInstrCheckBounds a b (f t)
  | roseInstrCheckNotHandled k t => roseInstrCheckNotHandled k (f t)
  | roseInstrCheckLookaround i c t => roseInstrCheckLookaround i c (f t)
  | roseInstrCheckMask a c n o t => roseInstrCheckMask a c n o (f t)
  | roseInstrCheckMask32 a c n o t => roseInstrCheckMask32 a c n o (f t)
  | roseInstrCheckByte a c n o t => roseInstrCheckByte a c n o (f t)
  | roseInstrCheckInfix q l r t => roseInstrCheckInfix q l r (f t)
  | roseInstrCheckPrefix q l r t => roseInstrCheckPrefix q l r (f t)
  | roseInstrDedupe q d o t => roseInstrDedupe q d o (f t)
  | roseInstrDedupeSom q d o t => roseInstrDedupeSom q d o (f t)
  | roseInstrDedupeAndReport q d m o t => roseInstrDedupeAndReport q d m o (f t)
  | roseInstrCheckExhausted e t => roseInstrCheckExhausted e (f t)
  | roseInstrCheckMinLength e m t => roseInstrCheckMinLength e m (f t)
  | roseInstrCheckState i t => roseInstrCheckState i (f t)
  | roseInstrSparseIterAny n ks t => roseInstrSparseIterAny n ks (f t)
  | roseInstrSparseIterBegin n jt t w io jo =>
      roseInstrSparseIterBegin n (jt.map fun j => (j.1, f j.2)) (f t) w io jo
  | roseInstrSparseIterNext s b t => roseInstrSparseIterNext s (f b) (f t)
  | x => x

/-- `update_target(old_target, new_target)`: each target slot equal to `old_target`
now holds `new_target`.  Classes without targets are left as they are. -/
def updateTarget (x : RoseInstruction) (oldTarget newTarget : InstrPtr) : RoseInstruction :=
  x.mapTargets fun t => if t = oldTarget then newTarget else t

/-- The opcode and non-target members only: every target slot set to `0` and the
emission state of `SPARSE_ITER_BEGIN` back to its initial value. -/
def payload (x : RoseInstruction) : RoseInstruction :=
  match x.mapTargets fun _ => 0 with
  | roseInstrSparseIterBegin n jt t .. => roseInstrSparseIterBegin n jt t false 0 0
  | y => y

/-- The instruction with its target slots, in the order of `targets`, filled from `ts`
(a missing entry reads as `0`) and every other member kept.  It is written out class by
class, apart from `mapTargets`, so that it can state what `update_target` keeps. -/
def withTargets (x : RoseInstruction) (ts : List InstrPtr) : RoseInstruction :=
  let t := ts.headD 0
  match x with
  | roseInstrAnchoredDelay g _ => roseInstrAnchoredDelay g t
  | roseInstrCheckOnlyEod _ => roseInstrCheckOnlyEod t
  | roseInstrCheckBounds a b _ => roseInstrCheckBounds a b t
  | roseInstrCheckNotHandled k _ => roseInstrCheckNotHandled k t
  | roseInstrCheckLookaround i c _ => roseInstrCheckLookaround i c t
  | roseInstrCheckMask a c n o _ => roseInstrCheckMask a c n o t
  | roseInstrCheckMask32 a c n o _ => roseInstrCheckMask32 a c n o t
  | roseInstrCheckByte a c n o _ => roseInstrCheckByte a c n o t
  | roseInstrCheckInfix q l r _ => roseInstrCheckInfix q l r t
  | roseInstrCheckPrefix q l r _ => roseInstrCheckPrefix q l r t
  | roseInstrDedupe q d o _ => roseInstrDedupe q d o t
  | roseInstrDedupeSom q d o _ => roseInstrDedupeSom q d o t
  | roseInstrDedupeAndReport q d m o _ => roseInstrDedupeAndReport q d m o t
  | roseInstrCheckExhausted e _ => roseInstrCheckExhausted e t
  | roseInstrCheckMinLength e m _ => roseInstrCheckMinLength e m t
  | roseInstrCheckState i _ => roseInstrCheckState i t
  | roseInstrSparseIterAny n ks _ => roseInstrSparseIterAny n ks t
  | roseInstrSparseIterBegin n jt _ w io jo =>
      roseInstrSparseIterBegin n (List.zipWith (fun j t => (j.1, t)) jt ts.tail) t w io jo
  | roseInstrSparseIterNext s _ _ => roseInstrSparseIterNext s (ts.getD 0 0) (ts.getD 1 0)
  | x => x

/-! ## Lemmas -/

@[simp] theorem code_mapTargets (f : InstrPtr → InstrPtr) (x : RoseInstruction) :
    (x.mapTargets f).code = x.code := by
  cases x <;> rfl

@[simp] theorem targets_mapTargets (f : InstrPtr → InstrPtr) (x : RoseInstruction) :
    (x.mapTargets f).targets = x.targets.map f := by
  cases x <;> first | rfl | simp [mapTargets, targets]

theorem mapTargets_mapTargets (f g : InstrPtr → InstrPtr) (x : RoseInstruction) :
    (x.mapTargets f).mapTargets g = x.mapTargets (g ∘ f) := by
  cases x <;> first | rfl | simp [mapTargets]

/-- `mapTargets` only reads the slots. -/
theorem mapTargets_congr {f g : InstrPtr → InstrPtr} {x : RoseInstruction}
    (h : ∀ t ∈ x.targets, f t = g t) : x.mapTargets f = x.mapTargets g := by
  cases x <;> simp_all [mapTargets, targets]
  exact fun _ b hm => h.2 b _ hm

theorem mapTargets_eq_self {f : InstrPtr → InstrPtr} {x : RoseInstruction}
    (h : ∀ t ∈ x.targets, f t = t) : x.mapTargets f = x := by
  rw [show x.mapTargets f = x.mapTargets id from mapTargets_congr h]
  cases x <;> first | rfl | simp [mapTargets]

@[simp] theorem payload_mapTargets (f : InstrPtr → InstrPtr) (x : RoseInstruction) :
    (x.mapTargets f).payload = x.payload := by
  simp only [payload, mapTargets_mapTargets]
  rfl

@[simp] theorem code_payload (x : RoseInstruction) : x.payload.code = x.code := by
  cases x <;> rfl

@[simp] theorem code_updateTarget (x : RoseInstruction) (o n : InstrPtr) :
    (x.updateTarget o n).code = x.code :=
  code_mapTargets _ x

@[simp] theorem targets_updateTarget (x : RoseInstruction) (o n : InstrPtr) :
    (x.updateTarget o n).targets = x.targets.map fun t => if t = o then n else t :=
  targets_mapTargets _ x

@[simp] theorem payload_updateTarget (x : RoseInstruction) (o n : InstrPtr) :
    (x.updateTarget o n).payload = x.payload :=
  payload_mapTargets _ x

theorem zipWith_key_map (jt : List (UInt32 × InstrPtr)) (f : InstrPtr → InstrPtr) :
    List.zipWith (fun j t => (j.1, t)) jt (jt.map (f ∘ Prod.snd)) = jt.map fun j => (j.1, f j.2) := by
  induction jt <;> simp_all

/-- Filling the slots with their own images under `f` is `mapTargets f`. -/
theorem withTargets_map (f : InstrPtr → InstrPtr) (x : RoseInstruction) :
    x.withTargets (x.targets.map f) = x.mapTargets f := by
  cases x <;> first | rfl | simp [withTargets, targets, mapTargets, zipWith_key_map]

/-- Filling the slots forgets what they held. -/
@[simp] theorem withTargets_mapTargets (f : InstrPtr → InstrPtr) (x : RoseInstruction)
    (ts : List InstrPtr) : (x.mapTargets f).withTargets ts = x.withTargets ts := by
  cases x <;> first | rfl | simp [withTargets, mapTargets, List.zipWith_map_left]

theorem withTargets_targets (x : RoseInstruction) : x.withTargets x.targets = x := by
  rw [← List.map_id x.targets, withTargets_map]
  exact mapTargets_eq_self fun _ _ => rfl

/-- Refilling a jump table keeps its keys, as long as every entry got a slot. -/
theorem zipWith_key_zipWith (jt : List (UInt32 × InstrPtr)) (us : List InstrPtr)
    (h : jt.length ≤ us.length) (vs : List InstrPtr) :
    List.zipWith (fun j t => (j.1, t)) (List.zipWith (fun j t => (j.1, t)) jt us) vs =
      List.zipWith (fun j t => (j.1, t)) jt vs := by
  induction jt generalizing us vs with
  | nil => rfl
  | cons j jt ih =>
      obtain _ | ⟨u, us⟩ := us
      · simp at h
      · obtain _ | ⟨v, vs⟩ := vs
        · rfl
        · simp only [List.zipWith_cons_cons, ih us (Nat.le_of_succ_le_succ h)]

/-- Filling the slots twice is filling them once, when the first filling has a value for
every slot. -/
theorem withTargets_withTargets (x : RoseInstruction) {ts : List InstrPtr}
    (h : ts.length = x.targets.length) (ts' : List InstrPtr) :
    (x.withTargets ts).withTargets ts' = x.withTargets ts' := by
  cases x
  case roseInstrSparseIterBegin n jt t w io jo =>
    simp only [targets, List.length_cons, List.length_map] at h
    simp only [withTargets, zipWith_key_zipWith jt ts.tail (by rw [List.length_tail]; omega)]
  all_goals rfl

/-- Instructions that agree once their slots are read through `f` and `g` agree on
everything but their slots. -/
theorem withTargets_congr {x y : RoseInstruction} {f g : InstrPtr → InstrPtr}
    (h : x.mapTargets f = y.mapTargets g) (ts : List InstrPtr) :
    x.withTargets ts = y.withTargets ts := by
  rw [← withTargets_mapTargets f x, h, withTargets_mapTargets]

/-- Outside `SPARSE_ITER_BEGIN` the payload is the instruction with every slot at `0`. -/
theorem payload_of_ne {x : RoseInstruction} (h : x.code ≠ .roseInstrSparseIterBegin) :
    x.payload = x.mapTargets fun _ => 0 := by
  cases x <;> first | rfl | exact absurd rfl h

/-- Outside `SPARSE_ITER_BEGIN`, instructions with one payload agree once their slots are read
through `f` and `g`, as soon as the slots read alike. -/
theorem mapTargets_eq_of_payload {x y : RoseInstruction} {f g : InstrPtr → InstrPtr}
    (hx : x.code ≠ .roseInstrSparseIterBegin) (hp : x.payload = y.payload)
    (ht : x.targets.map f = y.targets.map g) : x.mapTargets f = y.mapTargets g := by
  have hy : y.code ≠ .roseInstrSparseIterBegin := by rwa [← code_payload, ← hp, code_payload]
  rw [← withTargets_map f x, ← withTargets_map g y, ht]
  exact withTargets_congr ((payload_of_ne hx).symm.trans (hp.trans (payload_of_ne hy))) _

/-- Instructions that agree once their slots are read through `f` and `f'`: the second is the
first with its slots moved by any `g` that sends the first's slots to the second's. -/
theorem eq_mapTargets_of_mapTargets_eq {x y : RoseInstruction} {f f' g : InstrPtr → InstrPtr}
    (h : x.mapTargets f = y.mapTargets f') (ht : y.targets = x.targets.map g) :
    y = x.mapTargets g := by
  rw [← withTargets_targets y, ← withTargets_congr h, ht, withTargets_map]

/-- Only a `SPARSE_ITER_NEXT` maps to one, with `f` applied to its `begin` and `target`. -/
theorem mapTargets_eq_sparseIterNext {f : InstrPtr → InstrPtr} {x : RoseInstruction} {s : UInt32}
    {b t : InstrPtr} (h : x.mapTargets f = roseInstrSparseIterNext s b t) :
    ∃ b0 t0, x = roseInstrSparseIterNext s b0 t0 ∧ b = f b0 ∧ t = f t0 := by
  cases x <;> cases h
  exact ⟨_, _, rfl, rfl, rfl⟩

theorem eq_end_of_code {x : RoseInstruction} (h : x.code = .roseInstrEnd) : x = roseInstrEnd := by
  cases x <;> first | rfl | cases h

/-- Redirecting a pointer that no slot holds changes nothing. -/
theorem updateTarget_of_not_mem {x : RoseInstruction} {o : InstrPtr} (n : InstrPtr)
    (h : o ∉ x.targets) : x.updateTarget o n = x :=
  mapTargets_eq_self fun t ht => if_neg fun (e : t = o) => h (e ▸ ht)

/-- Two redirections in a row are one, when the pointer passed through held no slot. -/
theorem updateTarget_updateTarget {x : RoseInstruction} {o n m : InstrPtr} (h : n ∉ x.targets) :
    (x.updateTarget o n).updateTarget n m = x.updateTarget o m := by
  rw [updateTarget, updateTarget, updateTarget, mapTargets_mapTargets]
  refine mapTargets_congr fun t ht => ?_
  by_cases hto : t = o
  · simp [hto]
  · simp only [Function.comp, hto, if_false, if_neg fun (e : t = n) => h (e ▸ ht)]

end RoseInstruction

end Rose
