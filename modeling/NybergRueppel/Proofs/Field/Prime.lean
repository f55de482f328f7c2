import NybergRueppel.Proofs.Field.Realization

/-!
Prime fields. A coordinate field of degree one is realized by the residues modulo the prime, where
an element means the residue of its constant coefficient.
-/
namespace NybergRueppel.CoordinateField

variable {n : Nat} {f : CoordinateField n}

/-- In degree one an element means the residue of its constant coefficient. -/
def residueRealization [Fact (Nat.Prime f.mont.modulus.toNat)] (hf : f.IsBuilt)
    (hDegree : f.degree = 1) : Realization f f.Residue where
  scalar := RingHom.id _
  root := -f.mont.residue (f.polynomial.coeff 0)
  isBuilt := hf
  root_pow_degree := (residueRing hf hDegree).root_pow_degree
  eq_zero_of_sum_eq_zero := (residueRing hf hDegree).eq_zero_of_sum_eq_zero
  card_eq := by
    rw [hDegree, pow_one, Nat.card_zmod, modulus]

theorem value_residueRealization [Fact (Nat.Prime f.mont.modulus.toNat)] (hf : f.IsBuilt)
    (hDegree : f.degree = 1) (a : FieldElement n) :
    (residueRealization hf hDegree).value a = f.mont.residue (a.coeff 0) := by
  rw [Realization.value, hDegree, Finset.sum_range_one, pow_zero, mul_one]
  rfl

/-- A field that the constructor of prime fields returns, with a modulus that is a prime. -/
structure IsPrimeField (f : CoordinateField n) : Prop where
  ofPrime_eq : ∃ prime, ofPrime prime = .ok f
  prime : f.modulus.toNat.Prime

namespace IsPrimeField

variable (h : f.IsPrimeField)

include h in
theorem isBuilt : f.IsBuilt := by
  obtain ⟨prime, hPrime⟩ := h.ofPrime_eq
  exact (ofPrime_eq_ok hPrime).1

include h in
theorem degree_eq_one : f.degree = 1 := by
  obtain ⟨prime, hPrime⟩ := h.ofPrime_eq
  exact (ofPrime_eq_ok hPrime).2.2

/-- The residues modulo the prime. -/
def Residues (_ : f.IsPrimeField) : Type :=
  ZMod f.mont.modulus.toNat

instance : Field h.Residues :=
  haveI : Fact (Nat.Prime f.mont.modulus.toNat) := ⟨h.prime⟩
  inferInstanceAs (Field (ZMod f.mont.modulus.toNat))

instance : DecidableEq h.Residues :=
  inferInstanceAs (DecidableEq (ZMod f.mont.modulus.toNat))

instance : CharP h.Residues f.modulus.toNat :=
  inferInstanceAs (CharP (ZMod f.mont.modulus.toNat) f.mont.modulus.toNat)

/-- The least number of a residue. -/
def toNat (x : h.Residues) : Nat :=
  ZMod.val (n := f.mont.modulus.toNat) x

theorem toNat_inj {x y : h.Residues} : h.toNat x = h.toNat y ↔ x = y :=
  (ZMod.val_injective f.mont.modulus.toNat).eq_iff

theorem toNat_natCast {k : Nat} (hk : k < f.modulus.toNat) : h.toNat (k : h.Residues) = k :=
  ZMod.val_cast_of_lt hk

def realization : Realization f h.Residues :=
  haveI : Fact (Nat.Prime f.mont.modulus.toNat) := ⟨h.prime⟩
  residueRealization h.isBuilt h.degree_eq_one

/-- Decoding an element gives the least number of its residue. -/
theorem toNat_decodeBase {a : FieldElement n} {x : h.Residues}
    (ha : h.realization.Represents a x) : (f.decodeBase a).toNat = h.toNat x := by
  have : Fact (Nat.Prime f.mont.modulus.toNat) := ⟨h.prime⟩
  rw [decodeBase, f.mont.toNat_decode (ha.isElement.coeff_lt 0),
    ← value_residueRealization h.isBuilt h.degree_eq_one]
  exact congrArg h.toNat ha.value_eq

end IsPrimeField

end NybergRueppel.CoordinateField
