import Mathlib.RingTheory.AdjoinRoot
import NybergRueppel.Proofs.Field.Realization

/-!
The fields that the coordinate fields are: the residues modulo the prime in degree one, and the
remainders modulo the defining polynomial in general.
-/
namespace NybergRueppel

open Finset Polynomial

namespace CoordinateField

section MonicPolynomials

variable {R : Type} [CommRing R] (k : Nat) (c : Nat → R)

/-- Terms below degree `k` make a polynomial of a lower degree. -/
theorem degree_sum_lt : (∑ i ∈ range k, C (c i) * X ^ i).degree < (k : WithBot Nat) := by
  apply mem_degreeLT.mp
  apply Submodule.sum_mem
  intro i hi
  apply mem_degreeLT.mpr
  exact (degree_C_mul_X_pow_le i _).trans_lt (Nat.cast_lt.mpr (mem_range.mp hi))

theorem degree_X_pow_add_sum [Nontrivial R] :
    (X ^ k + ∑ i ∈ range k, C (c i) * X ^ i).degree = (k : WithBot Nat) := by
  rw [degree_add_eq_left_of_degree_lt, degree_X_pow]
  rw [degree_X_pow]
  exact degree_sum_lt k c

end MonicPolynomials

variable {n : Nat} (f : CoordinateField n)

/-- The monic polynomial whose remainders are the elements. -/
noncomputable def definingPolynomial : f.Residue[X] :=
  X ^ f.degree + ∑ i ∈ range f.degree, C (f.mont.residue (f.polynomial.coeff i)) * X ^ i

theorem monic_definingPolynomial : f.definingPolynomial.Monic :=
  monic_X_pow_add (degree_sum_lt f.degree _)

theorem degree_definingPolynomial :
    f.definingPolynomial.degree = (f.degree : WithBot Nat) :=
  degree_X_pow_add_sum f.degree _

theorem natDegree_definingPolynomial : f.definingPolynomial.natDegree = f.degree :=
  natDegree_eq_of_degree_eq_some f.degree_definingPolynomial

/-- The low coefficients that a field is built from are those of its defining polynomial. -/
theorem definingPolynomial_of_build_eq {prime : FixedNat n} {degree : Nat}
    {coeffs : List (FixedNat n)} {f : CoordinateField n} (hDegree : 1 ≤ degree)
    (hMax : degree ≤ maxExtensionDegree) (h : build prime degree coeffs = .ok f) :
    f.definingPolynomial =
      X ^ degree + ∑ i ∈ range degree, C ((coeffs.getD i 0).toNat : f.Residue) * X ^ i := by
  obtain ⟨hBuilt, -, hEq, hPolynomial⟩ := build_eq_ok hDegree hMax h
  rw [definingPolynomial, hEq]
  congr 1
  apply sum_congr rfl
  intro i hi
  rw [hPolynomial, ← hEq, coeff_ofCoeffs hBuilt _ (by rw [hEq]; exact mem_range.mp hi),
    Montgomery.residue_encode]

/-- The prime is one, and the polynomial of an extension does not split into factors. -/
structure IsGaloisField : Prop where
  isConstructed : f.IsConstructed
  prime : f.modulus.toNat.Prime
  irreducible : 1 < f.degree → Irreducible f.definingPolynomial

variable {f}

theorem sum_mul_root_pow_eq_mk (c : Nat → f.Residue) :
    ∑ i ∈ range f.degree,
        AdjoinRoot.of f.definingPolynomial (c i) * AdjoinRoot.root f.definingPolynomial ^ i =
      AdjoinRoot.mk f.definingPolynomial (∑ i ∈ range f.degree, C (c i) * X ^ i) := by
  simp only [map_sum, map_mul, map_pow, AdjoinRoot.mk_C, AdjoinRoot.mk_X]

/-- A remainder of degree below that of the polynomial vanishes only if its coefficients do. -/
theorem eq_zero_of_sum_mul_root_pow_eq_zero (c : Nat → f.Residue)
    (h : ∑ i ∈ range f.degree,
      AdjoinRoot.of f.definingPolynomial (c i) * AdjoinRoot.root f.definingPolynomial ^ i = 0) :
    ∀ i < f.degree, c i = 0 := by
  have hRemainder : ∑ i ∈ range f.degree, C (c i) * X ^ i = 0 := by
    by_contra hNonzero
    rw [sum_mul_root_pow_eq_mk] at h
    exact AdjoinRoot.mk_ne_zero_of_degree_lt f.monic_definingPolynomial hNonzero
      (f.degree_definingPolynomial ▸ degree_sum_lt f.degree c) h
  intro i hi
  have hCoeff := congrArg (fun q => q.coeff i) hRemainder
  simpa [finsetSum_coeff, coeff_C_mul, coeff_X_pow, hi] using hCoeff

theorem card_adjoinRoot :
    Nat.card (AdjoinRoot f.definingPolynomial) = f.modulus.toNat ^ f.degree := by
  have hBasis := AdjoinRoot.powerBasisAux' f.monic_definingPolynomial
  rw [Nat.card_congr hBasis.equivFun.toEquiv, Nat.card_fun, Nat.card_fin, Nat.card_zmod,
    natDegree_definingPolynomial, modulus]

theorem root_pow_degree_eq :
    AdjoinRoot.root f.definingPolynomial ^ f.degree =
      -∑ i ∈ range f.degree, AdjoinRoot.of f.definingPolynomial
        (f.mont.residue (f.polynomial.coeff i)) * AdjoinRoot.root f.definingPolynomial ^ i := by
  rw [eq_neg_iff_add_eq_zero, sum_mul_root_pow_eq_mk, ← AdjoinRoot.mk_X, ← map_pow, ← map_add]
  exact AdjoinRoot.mk_self

namespace IsGaloisField

theorem irreducible_definingPolynomial (h : f.IsGaloisField) :
    Irreducible f.definingPolynomial := by
  by_cases hExtension : 1 < f.degree
  · exact h.irreducible hExtension
  · have : Fact (Nat.Prime f.mont.modulus.toNat) := ⟨h.prime⟩
    have hDegree := h.isConstructed.isBuilt.one_le_degree
    apply irreducible_of_degree_eq_one
    rw [degree_definingPolynomial, show f.degree = 1 by omega, Nat.cast_one]

/-- The remainders modulo the defining polynomial. -/
def Remainders (_ : f.IsGaloisField) : Type :=
  AdjoinRoot f.definingPolynomial

noncomputable instance (h : f.IsGaloisField) : Field h.Remainders :=
  haveI : Fact (Nat.Prime f.mont.modulus.toNat) := ⟨h.prime⟩
  haveI : Fact (Irreducible f.definingPolynomial) := ⟨h.irreducible_definingPolynomial⟩
  AdjoinRoot.instField (K := ZMod f.mont.modulus.toNat)

noncomputable instance (h : f.IsGaloisField) : DecidableEq h.Remainders :=
  Classical.decEq _

/-- The coefficients of an element are those of a remainder. -/
noncomputable def realization (h : f.IsGaloisField) : Realization f h.Remainders where
  scalar := AdjoinRoot.of f.definingPolynomial
  root := AdjoinRoot.root f.definingPolynomial
  isBuilt := h.isConstructed.isBuilt
  root_pow_degree := root_pow_degree_eq
  eq_zero_of_sum_eq_zero := eq_zero_of_sum_mul_root_pow_eq_zero
  card_eq := card_adjoinRoot

end IsGaloisField

end CoordinateField

end NybergRueppel
