import Mathlib.Data.ZMod.Basic
import NybergRueppel.Proofs.FixedNat.Division
import NybergRueppel.Proofs.RepeatedSquaring

/-!
The product by shifting and adding. Its loop is that of repeated squaring, with the sum of residues
in the place of a product; what comes out is the multiple of a term by the number whose bits were
read, for factors of any size and moduli that use the full width.
-/
namespace NybergRueppel.FixedNat

open Word

variable {n : Nat} {m : FixedNat n}

section Residues

variable {a b : FixedNat n} (ha : a.toNat < m.toNat) (hb : b.toNat < m.toNat)

include ha hb

theorem addMod_lt : (addMod m a b).toNat < m.toNat := by
  rw [toNat_addMod ha hb]
  exact Nat.mod_lt _ (Nat.zero_lt_of_lt ha)

/-- Read multiplicatively, the sum of two residues is a product. -/
theorem ofAdd_addMod :
    Multiplicative.ofAdd ((addMod m a b).toNat : ZMod m.toNat) =
      .ofAdd (a.toNat : ZMod m.toNat) * .ofAdd (b.toNat : ZMod m.toNat) := by
  rw [toNat_addMod ha hb, ZMod.natCast_mod, Nat.cast_add, ofAdd_add]

end Residues

theorem mulBits_eq_powBits (m : FixedNat n) (bits : List Bool) (sum term : FixedNat n) :
    mulBits m bits sum term = powBits (addMod m) bits sum term := by
  induction bits generalizing sum term with
  | nil => rfl
  | cons bit bits ih => exact ih _ _

/-- The sum takes in the multiple of the term by the number that the bits write. -/
theorem toNat_mulBits (bits : List Bool) {sum term : FixedNat n} (hSum : sum.toNat < m.toNat)
    (hTerm : term.toNat < m.toNat) :
    (mulBits m bits sum term).toNat =
      (sum.toNat + Nat.ofDigits 2 (bits.map Bool.toNat) * term.toNat) % m.toNat := by
  have hLess := powBits_closed (P := fun a : FixedNat n => a.toNat < m.toNat)
    (fun _ _ => addMod_lt) bits hSum hTerm
  have hRun := map_powBits (P := fun a : FixedNat n => a.toNat < m.toNat)
    (v := fun a : FixedNat n => Multiplicative.ofAdd (a.toNat : ZMod m.toNat))
    (fun _ _ => addMod_lt) (fun _ _ => ofAdd_addMod) bits hSum hTerm
  rw [← ofAdd_nsmul, ← ofAdd_add, Multiplicative.ofAdd.apply_eq_iff_eq, nsmul_eq_mul,
    ← Nat.cast_mul, ← Nat.cast_add, ZMod.natCast_eq_natCast_iff', Nat.mod_eq_of_lt hLess] at hRun
  rw [mulBits_eq_powBits, hRun]

/-- The bits that the loop reads are those below the bit length. -/
theorem take_bits_eq_map_testBit (a : FixedNat n) :
    (Limbs.bits a.limbs).take a.bitLength = (List.range a.bitLength).map a.testBit := by
  have hFits : a.bitLength ≤ a.limbs.length * 64 := by
    have hLess := Limbs.toNat_lt a.limbs
    rw [base_pow_eq, Nat.mul_comm] at hLess
    exact (bitLength_le_iff a _).mpr hLess
  rw [Limbs.bits_eq_map_testBit, ← List.map_take, List.take_range, Nat.min_eq_left hFits]
  rfl

/-- They write the whole number. -/
theorem ofDigits_take_bits (a : FixedNat n) :
    Nat.ofDigits 2 (((Limbs.bits a.limbs).take a.bitLength).map Bool.toNat) = a.toNat := by
  have hBits : a.testBit = a.toNat.testBit := funext (testBit_eq a)
  rw [take_bits_eq_map_testBit, hBits, Limbs.ofDigits_testBit,
    Nat.mod_eq_of_lt (toNat_lt_two_pow_bitLength a)]

/-- The product is exact for factors of any size. -/
theorem toNat_mulMod (hm : 0 < m.toNat) (a b : FixedNat n) :
    (mulMod m a b).toNat = a.toNat * b.toNat % m.toNat := by
  have hZero : (0 : FixedNat n).toNat < m.toNat := by rwa [toNat_zero]
  have hTerm : (b.mod m).toNat < m.toNat := by
    rw [toNat_mod b hm]
    exact Nat.mod_lt _ hm
  rw [mulMod, toNat_mulBits _ hZero hTerm, toNat_zero, Nat.zero_add, ofDigits_take_bits,
    toNat_mod b hm, Nat.mul_mod_mod]

theorem mulMod?_eq_some (hm : 0 < m.toNat) (a b : FixedNat n) :
    mulMod? m a b = some (mulMod m a b) := by
  rw [mulMod?, if_neg fun h => hm.ne' ((isZero_iff m).mp h)]

end NybergRueppel.FixedNat
