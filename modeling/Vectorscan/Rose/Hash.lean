import Vectorscan.Rose.Program
import Mathlib.Data.UInt

/-!
# Instruction and program hashes

Each class's `hash()` starts from its opcode and mixes in some of its members with
`boost::hash_combine`; `RoseProgramHash` mixes the instructions' hashes into `0` in
program order.  The opcodes' numeric values are declared in `rose_program.h`, so
they are the parameter `opcode` here.  No class mixes in a target, and
`SPARSE_ITER_BEGIN` leaves its emission state out, so both hashes see the payload
only:

    x.payload.hashedMembers = x.hashedMembers                     (hashedMembers_payload)
    P.size = Q.size → (∀ i, P[i].payload = Q[i].payload) →
      roseProgramHash opcode P = roseProgramHash opcode Q        (roseProgramHash_ignores_targets)
-/

namespace Rose

/-- Modelled from the spec: `boost::hash_combine` with the mixing step of §4.4,
`seed ^= v + 0x9e3779b9 + (seed << 6) + (seed >> 2)`, on a 64-bit `size_t`. -/
def hashCombine (seed v : UInt64) : UInt64 :=
  seed ^^^ (v + (0x9e3779b9 : UInt64) + (seed <<< 6) + (seed >>> 2))

/-- `boost::hash_range`, the hash of a `std::array` or `std::vector`: the elements
mixed into `0`. -/
def hashRange (vs : List UInt64) : UInt64 := vs.foldl hashCombine 0

/-- `boost::hash_value` of an `s32`: the `int` converted to `size_t`, sign-extended. -/
def hashS32 (v : BitVec 32) : UInt64 := ⟨v.signExtend 64⟩

/-- `boost::hash_value` of a `std::array<u8, 32>`. -/
def hashArray32 (a : Array32) : UInt64 := hashRange (a.1.map UInt8.toUInt64)

/-- With the seed fixed, `hash_combine` is one-to-one in the value mixed in. -/
theorem hashCombine_injective (seed : UInt64) : Function.Injective (hashCombine seed) := by
  intro v w h
  have hx : ∀ a b : UInt64, seed ^^^ a = seed ^^^ b → a = b := by
    rintro ⟨a⟩ ⟨b⟩ e
    have e' : seed.toBitVec ^^^ a = seed.toBitVec ^^^ b := congrArg UInt64.toBitVec e
    have := congrArg (seed.toBitVec ^^^ ·) e'
    simp only [← BitVec.xor_assoc, BitVec.xor_self, BitVec.zero_xor] at this
    rw [this]
  exact add_right_cancel (add_right_cancel (add_right_cancel (hx _ _ h)))

namespace RoseInstruction

/-- The members each class's `hash()` mixes in after its opcode, in order, as their
`boost::hash_value`s. -/
def hashedMembers : RoseInstruction → List UInt64
  | roseInstrAnchoredDelay groups _ => [groups]
  | roseInstrCheckLitEarly minOffset => [minOffset.toUInt64]
  | roseInstrCheckGroups groups => [groups]
  | roseInstrCheckOnlyEod _ => []
  | roseInstrCheckBounds minBound maxBound _ => [minBound, maxBound]
  | roseInstrCheckNotHandled key _ => [key.toUInt64]
  | roseInstrCheckLookaround index count _ => [index.toUInt64, count.toUInt64]
  | roseInstrCheckMask andMask cmpMask negMask offset _ =>
      [andMask, cmpMask, negMask, hashS32 offset]
  | roseInstrCheckMask32 andMask cmpMask negMask offset _ =>
      [hashArray32 andMask, hashArray32 cmpMask, negMask.toUInt64, hashS32 offset]
  | roseInstrCheckByte andMask cmpMask negation offset _ =>
      [andMask.toUInt64, cmpMask.toUInt64, negation.toUInt64, hashS32 offset]
  | roseInstrCheckInfix queue lag report _ | roseInstrCheckPrefix queue lag report _ =>
      [queue.toUInt64, lag.toUInt64, report.toUInt64]
  | roseInstrPushDelayed delay index => [delay.toUInt64, index.toUInt64]
  | roseInstrRecordAnchored id => [id.toUInt64]
  | roseInstrSomAdjust distance => [distance.toUInt64]
  | roseInstrSomLeftfix queue lag => [queue.toUInt64, lag.toUInt64]
  | roseInstrSomFromReport som | roseInstrReportSomInt som | roseInstrReportSomAware som =>
      [som.type.toUInt64, som.onmatch.toUInt64]
  | roseInstrTriggerInfix cancel queue event =>
      [cancel.toUInt64, queue.toUInt64, event.toUInt64]
  | roseInstrTriggerSuffix queue event => [queue.toUInt64, event.toUInt64]
  | roseInstrDedupe quashSom dkey offsetAdjust _
  | roseInstrDedupeSom quashSom dkey offsetAdjust _ =>
      [quashSom.toUInt64, dkey.toUInt64, hashS32 offsetAdjust]
  | roseInstrReportChain event topSquashDistance => [event.toUInt64, topSquashDistance]
  | roseInstrReport onmatch offsetAdjust | roseInstrReportSom onmatch offsetAdjust
  | roseInstrFinalReport onmatch offsetAdjust => [onmatch.toUInt64, hashS32 offsetAdjust]
  | roseInstrReportExhaust onmatch offsetAdjust ekey
  | roseInstrReportSomExhaust onmatch offsetAdjust ekey =>
      [onmatch.toUInt64, hashS32 offsetAdjust, ekey.toUInt64]
  | roseInstrDedupeAndReport quashSom dkey onmatch offsetAdjust _ =>
      [quashSom.toUInt64, dkey.toUInt64, onmatch.toUInt64, hashS32 offsetAdjust]
  | roseInstrCheckExhausted ekey _ => [ekey.toUInt64]
  | roseInstrCheckMinLength endAdj minLength _ => [hashS32 endAdj, minLength]
  | roseInstrSetState index => [index.toUInt64]
  | roseInstrSetGroups groups | roseInstrSquashGroups groups => [groups]
  | roseInstrCheckState index _ => [index.toUInt64]
  | roseInstrSparseIterBegin numKeys jumpTable .. =>
      numKeys.toUInt64 :: jumpTable.map fun jump => jump.1.toUInt64
  | roseInstrSparseIterNext state .. => [state.toUInt64]
  | roseInstrSparseIterAny numKeys keys _ =>
      [numKeys.toUInt64, hashRange (keys.map UInt32.toUInt64)]
  | roseInstrEnginesEod iterOffset => [iterOffset.toUInt64]
  | roseInstrCatchUp | roseInstrCatchUpMpv | roseInstrSomZero | roseInstrSuffixesEod
  | roseInstrMatcherEod | roseInstrEnd => []

/-- `hash()`: `size_t v = opcode;` then `boost::hash_combine(v, m)` for each hashed
member; the trivial classes return the opcode itself. -/
def hash (opcode : RoseInstructionCode → UInt8) (x : RoseInstruction) : UInt64 :=
  x.hashedMembers.foldl hashCombine (opcode x.code).toUInt64

@[simp] theorem hashedMembers_mapTargets (f : InstrPtr → InstrPtr) (x : RoseInstruction) :
    (x.mapTargets f).hashedMembers = x.hashedMembers := by
  cases x <;> simp [mapTargets, hashedMembers]

@[simp] theorem hashedMembers_payload (x : RoseInstruction) :
    x.payload.hashedMembers = x.hashedMembers := by
  rw [← hashedMembers_mapTargets (fun _ => 0) x]
  unfold payload
  split <;> simp_all [hashedMembers]

@[simp] theorem hash_payload (opcode : RoseInstructionCode → UInt8) (x : RoseInstruction) :
    x.payload.hash opcode = x.hash opcode := by
  simp [hash]

end RoseInstruction

/-- `RoseProgramHash::operator()`: `size_t v = 0;` then `hash_combine(v, ri->hash())`
for each instruction in program order. -/
def roseProgramHash (opcode : RoseInstructionCode → UInt8) (program : RoseProgram) : UInt64 :=
  (program.prog.map fun ri => ri.2.hash opcode).foldl hashCombine 0

/-- **The hashes never see a target.**  Programs of one size whose instructions agree
position by position on opcode and non-target members hash alike, whatever their
targets and `SPARSE_ITER_BEGIN` emission state; in particular `update_target` keeps
every instruction's hash. -/
theorem roseProgramHash_ignores_targets (opcode : RoseInstructionCode → UInt8) :
    (∀ P Q : RoseProgram, P.size = Q.size →
      (∀ i (hP : i < P.size) (hQ : i < Q.size),
        (P.prog.get ⟨i, hP⟩).2.payload = (Q.prog.get ⟨i, hQ⟩).2.payload) →
      roseProgramHash opcode P = roseProgramHash opcode Q) ∧
    ∀ (x : RoseInstruction) (oldTarget newTarget : InstrPtr),
      (x.updateTarget oldTarget newTarget).hash opcode = x.hash opcode := by
  refine ⟨fun P Q hsize h => ?_, fun x o n => ?_⟩
  · unfold roseProgramHash
    congr 1
    apply List.ext_get (by simpa [RoseProgram.size] using hsize)
    intro i h1 h2
    have hQ : i < Q.prog.length := by simpa using h2
    simpa only [List.get_eq_getElem, List.getElem_map, RoseInstruction.hash_payload]
      using congrArg (RoseInstruction.hash opcode) (h i (by simpa using h1) hQ)
  · rw [← RoseInstruction.hash_payload, RoseInstruction.payload_updateTarget,
      RoseInstruction.hash_payload]

theorem roseProgramHash_ignores_targets_onlyEod :
    roseProgramHash (fun _ => 0) ⟨[(1, .roseInstrCheckOnlyEod 0), (0, .roseInstrEnd)]⟩ =
      roseProgramHash (fun _ => 0) ⟨[(7, .roseInstrCheckOnlyEod 6), (6, .roseInstrEnd)]⟩ :=
  (roseProgramHash_ignores_targets _).1 _ _ rfl fun i hP _ => by
    match i with
    | 0 | 1 => rfl
    | _ + 2 => simp only [RoseProgram.size_mk, List.length_cons, List.length_nil] at hP; omega

end Rose
