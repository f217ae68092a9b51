import Drover.Data.Bytes

/-!
# PC names
-/

namespace Drover

/-- `[A-Za-z0-9._-]`. -/
def isPCNameByte (b : UInt8) : Bool :=
  (0x41 ≤ b && b ≤ 0x5a) || (0x61 ≤ b && b ≤ 0x7a) || (0x30 ≤ b && b ≤ 0x39) ||
    b == 0x2e || b == 0x5f || b == 0x2d

/-- `ValidPCName`: `^[A-Za-z0-9._-]{1,128}$`. -/
def ValidPCName (pc : Bytes) : Bool :=
  1 ≤ pc.length && pc.length ≤ 128 && pc.all isPCNameByte

theorem isPCNameByte_of_mem {pc : Bytes} (valid : ValidPCName pc = true) {b : UInt8}
    (mem : b ∈ pc) : isPCNameByte b = true := by
  simp only [ValidPCName, Bool.and_eq_true, List.all_eq_true] at valid
  exact valid.2 b mem

end Drover
