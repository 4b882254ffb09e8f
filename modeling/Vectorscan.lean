import Vectorscan.Rose.Instruction
import Vectorscan.Rose.Program
import Vectorscan.Rose.Hash
import Vectorscan.Rose.Equiv
import Vectorscan.Rose.Reachable
import Vectorscan.Rose.SparseIter
import Vectorscan.Rose.Equivalence
import Vectorscan.Rose.Index
import Vectorscan.Rose.Resolve
import Vectorscan.Rose.Splice
import Vectorscan.Util.Arch.Arm.Neon
import Vectorscan.Util.Arch.Arm.SimdUtils
import Vectorscan.Util.Arch.Arm.SimdUtils.Lanes
import Vectorscan.Util.Arch.Arm.SimdUtils.Compare
import Vectorscan.Util.Arch.Arm.SimdUtils.Memory
import Vectorscan.Util.Arch.Arm.SimdUtils.OneBit
