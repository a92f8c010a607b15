import Fence.Library.ByteMemory
import Fence.Library.Crc

/-!
# Record checksums

The checksum of a record covers its term, its index and its payload. The hash is that of the
crate `crc32fast`, which is not part of the repository: it is a parameter of the model, a
function of the concatenation of its updates. `crc32fast` is that function as the crate
documents it, for runs on concrete inputs.
-/

set_option autoImplicit false
set_option relaxedAutoImplicit false

namespace Fence

open ByteMemory

/-- A hash that consumes bytes and yields 32 bits. -/
abbrev Hasher := List UInt8 → UInt32

/-- The hash of the crate `crc32fast`, the usual 32-bit check. -/
def crc32fast : Hasher := Crc.checkValue Crc.ieee

namespace Checksum

variable (hasher : Hasher)

/-- `checksum::compute`: the hash of term, index and payload, widened to 64 bits. -/
def compute (term index : ℕ) (payload : List UInt8) : ℕ :=
  (hasher (leBytes 8 term ++ leBytes 8 index ++ payload)).toNat

/-- `checksum::verify`: whether the computed checksum is the expected one. -/
def verify (term index : ℕ) (payload : List UInt8) (expected : ℕ) : Bool :=
  compute hasher term index payload == expected

theorem compute_lt (term index : ℕ) (payload : List UInt8) :
    compute hasher term index payload < 2 ^ 64 :=
  Nat.lt_trans (UInt32.toNat_lt _) (by decide)

variable {hasher} in
@[simp] theorem verify_compute (term index : ℕ) (payload : List UInt8) :
    verify hasher term index payload (compute hasher term index payload) = true := by
  simp [verify]

end Checksum

end Fence
