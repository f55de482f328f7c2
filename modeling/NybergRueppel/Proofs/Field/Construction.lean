import NybergRueppel.Proofs.Field.RootSearch

/-!
The constructors of coordinate fields. What they accept and refuse depends on the numbers that they
are given and on the monic polynomial that these write; what they return computes in the ring of the
remainders modulo that polynomial.
-/
namespace NybergRueppel.CoordinateField

open Finset Polynomial

variable {n : Nat} {f : CoordinateField n} {prime : FixedNat n} {degree : Nat}
  {coeffs : List (FixedNat n)}

/-- The polynomial of degree `k` with leading coefficient one and the given low coefficients. -/
noncomputable def lowMonic (p k : Nat) (coeffs : List (FixedNat n)) : (ZMod p)[X] :=
  X ^ k + lowPolynomial p k coeffs

theorem definingPolynomial_eq_lowMonic (hDegree : 1 ≤ degree) (hMax : degree ≤ maxExtensionDegree)
    (h : build prime degree coeffs = .ok f) :
    f.definingPolynomial = lowMonic f.mont.modulus.toNat degree coeffs :=
  definingPolynomial_of_build_eq hDegree hMax h

/-- The field computes with the remainders modulo the polynomial. -/
theorem exists_ringRealization_of_build_eq (hDegree : 1 ≤ degree)
    (hMax : degree ≤ maxExtensionDegree) (h : build prime degree coeffs = .ok f) :
    ∃ r : RingRealization f (AdjoinRoot (lowMonic prime.toNat degree coeffs)), ∀ cs,
      r.number cs = AdjoinRoot.mk (lowMonic prime.toNat degree coeffs)
        (lowPolynomial prime.toNat degree cs) := by
  have hPolynomial := definingPolynomial_eq_lowMonic hDegree hMax h
  obtain ⟨hBuilt, rfl, hEq, -⟩ := build_eq_ok hDegree hMax h
  have hRing : ∃ r : RingRealization f (AdjoinRoot f.definingPolynomial), ∀ cs,
      r.number cs = AdjoinRoot.mk f.definingPolynomial
        (lowPolynomial f.mont.modulus.toNat f.degree cs) :=
    ⟨remainderRing hBuilt, number_remainderRing hBuilt⟩
  rw [hPolynomial, hEq] at hRing
  exact hRing

/-- A polynomial is refused if it has no constant term, and for a small modulus and degree if it has
a root. -/
theorem isReducible_of_build_eq_iff (hDegree : 1 ≤ coeffs.length)
    (hMax : coeffs.length ≤ maxExtensionDegree) (hReduced : ∀ c ∈ coeffs, c.toNat < prime.toNat)
    (h : build prime coeffs.length coeffs = .ok f) :
    f.isReducible = true ↔ coeffs.getD 0 0 = 0 ∨
      coeffs.length ≤ 3 ∧ prime.toNat < 2 ^ 16 ∧
        ∃ x, (lowMonic prime.toNat coeffs.length coeffs).IsRoot x := by
  have hPolynomial := definingPolynomial_eq_lowMonic hDegree hMax h
  obtain ⟨hBuilt, rfl, hEq, hCoeffs⟩ := build_eq_ok hDegree hMax h
  have hFirst : (coeffs.getD 0 0).toNat < f.modulus.toNat := by
    apply hReduced
    rw [List.getD_eq_getElem?_getD, List.getElem?_eq_getElem hDegree, Option.getD_some]
    exact List.getElem_mem hDegree
  have hConstant : f.polynomial.coeff 0 = 0 ↔ coeffs.getD 0 0 = 0 := by
    rw [hCoeffs, ← hEq, coeff_ofCoeffs hBuilt _ hBuilt.one_le_degree,
      ← FixedNat.isZero_iff_eq_zero, isZero_iff_residue_eq_zero (f.mont.encode_lt _),
      Montgomery.residue_encode, ← FixedNat.isZero_iff_eq_zero, FixedNat.isZero_iff,
      ZMod.natCast_eq_zero_iff]
    refine ⟨fun hDvd => Nat.eq_zero_of_dvd_of_lt hDvd hFirst, fun hZero => ?_⟩
    rw [hZero]
    exact dvd_zero _
  have hSearch := isReducible_iff hBuilt
  rw [hConstant, hEq, hPolynomial] at hSearch
  exact hSearch

end NybergRueppel.CoordinateField
