import NybergRueppel.Proofs.Checked.Montgomery
import NybergRueppel.Proofs.FixedNat.Product

/-!
Arithmetic modulo an integer that may use the full width, on the checking machine. A sum that
leaves the width and a difference below zero are brought back by one wrapping step, and the loop of
the product only forms sums of residues.
-/
namespace NybergRueppel.FixedNat

open Checked

variable {n : Nat}

/-- The residue of `a * b` by shifting and adding. -/
def checkedMulMod (m a b : FixedNat n) : Checked (FixedNat n) := do
  let term ← b.checkedMod m
  let (sum, _) ← (List.range (← a.checkedBitLength)).foldlM (fun (sum, term) i => do
    return (← checkedMulIf (checkedAddMod m) (← a.checkedTestBit i) sum term,
      ← checkedAddMod m term term)) (0, term)
  return sum

theorem checkedMulMod_eq {m : FixedNat n} (hm : 0 < m.toNat) (a b : FixedNat n) :
    checkedMulMod m a b = .ok (mulMod m a b) := by
  rw [checkedMulMod, checkedMod_eq b hm, ok_bind, checkedBitLength_eq, ok_bind, mulMod,
    mulBits_eq_powBits, take_bits_eq_map_testBit, powBits_eq_foldl, List.foldl_map]
  rw [(foldlM_eq_foldl (P := fun _ => True) ?_ trivial).1]
  · rfl
  · rintro ⟨sum, term⟩ - i -
    refine ⟨?_, trivial⟩
    dsimp only
    rw [checkedTestBit_eq, ok_bind, checkedMulIf, checkedAddMod_eq, checkedAddMod_eq]
    split <;> rfl

/-- Sums and differences of residues and products of any integers are residues below the modulus,
which may have its top bit set, and no step on the way to them stops. -/
theorem modular_arithmetic_exact {m : FixedNat n} (hm : 0 < m.toNat) :
    (∀ a b : FixedNat n, a.toNat < m.toNat → b.toNat < m.toNat →
      checkedAddMod m a b = .ok (addMod m a b) ∧
      (addMod m a b).toNat = (a.toNat + b.toNat) % m.toNat ∧
      checkedSubMod m a b = .ok (subMod m a b) ∧
      ((subMod m a b).toNat : Int) = ((a.toNat : Int) - b.toNat) % m.toNat) ∧
    ∀ a b : FixedNat n,
      mulMod? m a b = some (mulMod m a b) ∧ checkedMulMod m a b = .ok (mulMod m a b) ∧
      (mulMod m a b).toNat = a.toNat * b.toNat % m.toNat := by
  constructor
  · intro a b ha hb
    exact ⟨checkedAddMod_eq m a b, toNat_addMod ha hb, checkedSubMod_eq m a b,
      intCast_subMod ha hb⟩
  · intro a b
    exact ⟨mulMod?_eq_some hm a b, checkedMulMod_eq hm a b, toNat_mulMod hm a b⟩

/-- The modulus is `2 ^ 128 - 3`. The sum of the largest residue with itself leaves the width, the
difference of zero and that residue is negative, and both factors are above the modulus. -/
theorem modular_arithmetic_exact_full_width :
    let m : FixedNat 2 := ⟨[-3, -1], rfl⟩
    let largest : FixedNat 2 := ⟨[-4, -1], rfl⟩
    let factor : FixedNat 2 := ⟨[-1, -1], rfl⟩
    (checkedAddMod m largest largest = .ok (addMod m largest largest) ∧
      (addMod m largest largest).toNat = 2 ^ 128 - 5) ∧
    (checkedSubMod m 0 largest = .ok (subMod m 0 largest) ∧ (subMod m 0 largest).toNat = 1) ∧
    checkedMulMod m factor factor = .ok (mulMod m factor factor) ∧
      (mulMod m factor factor).toNat = 4 := by
  intro m largest factor
  obtain ⟨hResidues, hProducts⟩ := modular_arithmetic_exact (m := m) (by decide)
  obtain ⟨hSum, hSumValue, -, -⟩ := hResidues largest largest (by decide) (by decide)
  obtain ⟨-, -, hDifference, hDifferenceValue⟩ := hResidues 0 largest (by decide) (by decide)
  obtain ⟨-, hProduct, hProductValue⟩ := hProducts factor factor
  refine ⟨⟨hSum, hSumValue.trans (by decide)⟩, ⟨hDifference, ?_⟩, hProduct,
    hProductValue.trans (by decide)⟩
  exact Int.ofNat_inj.mp (hDifferenceValue.trans (by decide))

end NybergRueppel.FixedNat
