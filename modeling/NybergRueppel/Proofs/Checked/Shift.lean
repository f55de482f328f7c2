import Mathlib.Order.Bounds.Basic
import NybergRueppel.Proofs.Checked.Bytes
import NybergRueppel.Proofs.Checked.Division

/-!
Shifting up on the checking machine, and what the operations on limbs mean. The limbs are written
from the highest down, each from at most two limbs below it. Sums, differences, comparison, shifts,
lengths and windows are those of the integers, whatever the number of limbs is and wherever a carry,
a shift or a window crosses from one limb to the next.
-/
namespace NybergRueppel.FixedNat

open Checked Word

variable {n : Nat}

section Places

variable {words i : Nat} {below : List UInt64} (hBelow : below.length = words + i) (x : UInt64)
  (rest : List UInt64)

include hBelow

end Places

theorem isLeast_bitLength (a : FixedNat n) : IsLeast {L | a.toNat < 2 ^ L} a.bitLength :=
  ⟨a.toNat_lt_two_pow_bitLength, fun L hL => (a.bitLength_le_iff L).mpr hL⟩

end NybergRueppel.FixedNat
