import NybergRueppel.Proofs.Field.Screening

/-!
Inversion in the fields of prime powers. The power by the number of elements less two is the
inverse, because the elements other than zero are a group under the product; in degree one it is
formed by the residues alone.
-/
namespace NybergRueppel.CoordinateField

variable {n : Nat} {f : CoordinateField n} {prime : FixedNat n} {coeffs : List (FixedNat n)}

/-- Inversion in a field of `p ^ k` elements. The inverse of an element is an element; that of zero
is zero, and the product of any other with its inverse is one. In degree one the inverse is that of
the constant coefficient. -/
structure Inverts (f : CoordinateField n) (p k : Nat) : Prop where
  modulus_eq : f.modulus.toNat = p
  degree_eq : f.degree = k
  inverseExponent_eq : Limbs.toNat f.inverseExponent + 2 = p ^ k
  isElement_inverse : ∀ a, f.IsElement a → f.IsElement (f.inverse a)
  mul_inverse : ∀ a, f.IsElement a → a ≠ 0 → f.mul a (f.inverse a) = f.one
  inverse_zero : f.inverse 0 = 0
  inverse_eq_ofBase : k = 1 → ∀ a, f.inverse a = .ofBase (f.mont.inverse (a.coeff 0))

theorem IsGaloisField.inverts (h : f.IsGaloisField) : f.Inverts f.modulus.toNat f.degree := by
  have hBuilt := h.isConstructed.isBuilt
  constructor
  case modulus_eq => rfl
  case degree_eq => rfl
  case inverseExponent_eq => exact hBuilt.toNat_inverseExponent
  case isElement_inverse => exact fun _ ha => CoordinateField.isElement_inverse hBuilt ha
  case mul_inverse =>
    intro a ha hNonzero
    have hValue : h.realization.value a ≠ 0 := (h.realization.value_eq_zero_iff ha).not.mpr hNonzero
    apply h.realization.eq_of_value_eq (isElement_mul hBuilt ha) (isElement_one hBuilt)
    rw [h.realization.value_mul ha, h.realization.value_inverse ha, h.realization.value_one,
      mul_inv_cancel₀ hValue]
  case inverse_zero =>
    have hZero := isElement_zero (f := f)
    rw [← h.realization.value_eq_zero_iff (CoordinateField.isElement_inverse hBuilt hZero),
      h.realization.value_inverse hZero, h.realization.value_zero, inv_zero]
  case inverse_eq_ofBase => exact CoordinateField.inverse_eq_ofBase hBuilt

/-- The residues modulo a prime invert. -/
theorem inverts_of_ofPrime_eq (hPrime : prime.toNat.Prime) (h : ofPrime prime = .ok f) :
    f.Inverts prime.toNat 1 := by
  obtain ⟨-, hModulus, hDegree⟩ := ofPrime_eq_ok h
  have hField : f.IsGaloisField := {
    isConstructed := .ofPrime prime h
    prime := hModulus ▸ hPrime
    irreducible := fun hExtension => absurd hExtension (hDegree ▸ Nat.lt_irrefl 1) }
  exact hModulus ▸ hDegree ▸ hField.inverts

/-- The remainders modulo an irreducible polynomial invert. -/
theorem inverts_of_ofPolynomial_eq (hPrime : prime.toNat.Prime)
    (hIrreducible : Irreducible (monicPolynomial prime.toNat coeffs))
    (h : ofPolynomial prime coeffs = .ok f) : f.Inverts prime.toNat coeffs.length := by
  obtain ⟨hLower, hUpper, hBuild⟩ := ofPolynomial_eq_ok h
  have hPolynomial := definingPolynomial_eq_lowMonic (by omega) hUpper hBuild
  have hConstructed := IsConstructed.ofPolynomial prime coeffs h
  obtain ⟨-, rfl, hDegree, -⟩ := build_eq_ok (by omega) hUpper hBuild
  have hField : f.IsGaloisField := {
    isConstructed := hConstructed
    prime := hPrime
    irreducible := fun _ => hPolynomial ▸ hIrreducible }
  exact hDegree ▸ hField.inverts

/-- The exponent of inversion is the number of elements less two in every field that a constructor
returns, whatever the modulus is. Over a prime from three on, the field of the residues is returned
and inverts, and so is that of the remainders modulo any irreducible polynomial. -/
theorem inversion_exact (prime : FixedNat n) :
    (∀ f, ofPrime prime = .ok f → Limbs.toNat f.inverseExponent + 2 = prime.toNat ^ 1) ∧
      (∀ coeffs f, ofPolynomial prime coeffs = .ok f →
        Limbs.toNat f.inverseExponent + 2 = prime.toNat ^ coeffs.length) ∧
      (prime.toNat.Prime → 3 ≤ prime.toNat →
        ∃ f, ofPrime prime = .ok f ∧ f.Inverts prime.toNat 1) ∧
      ∀ coeffs, IsExtensionOf prime coeffs → Irreducible (monicPolynomial prime.toNat coeffs) →
        ∃ f, ofPolynomial prime coeffs = .ok f ∧ f.Inverts prime.toNat coeffs.length := by
  refine ⟨?_, ?_, ?_, ?_⟩
  · intro f h
    obtain ⟨hBuilt, rfl, hDegree⟩ := ofPrime_eq_ok h
    exact hDegree ▸ hBuilt.toNat_inverseExponent
  · intro coeffs f h
    obtain ⟨hLower, hUpper, hBuild⟩ := ofPolynomial_eq_ok h
    obtain ⟨hBuilt, rfl, hDegree, -⟩ := build_eq_ok (by omega) hUpper hBuild
    exact hDegree ▸ hBuilt.toNat_inverseExponent
  · intro hPrime hLarge
    have hOdd : prime.toNat % 2 = 1 := hPrime.mod_two_eq_one_iff_ne_two.mpr (by omega)
    obtain ⟨f, h⟩ := (exists_ofPrime_eq_ok_iff prime).mpr ⟨hOdd, hLarge⟩
    exact ⟨f, h, inverts_of_ofPrime_eq hPrime h⟩
  · intro coeffs hNumbers hIrreducible
    obtain ⟨f, h⟩ := hNumbers.exists_ofPolynomial_eq_ok hIrreducible
    exact ⟨f, h, inverts_of_ofPolynomial_eq hNumbers.prime_toNat hIrreducible h⟩

/-- The field of 7 elements and that of 49, whose polynomial is `x ^ 2 + 1`. -/
theorem inversion_exact_seven :
    let seven : FixedNat 1 := .ofWord 7
    (∃ f, ofPrime seven = .ok f ∧ f.Inverts 7 1) ∧
    ∃ f, ofPolynomial seven [.ofWord 1, 0] = .ok f ∧ f.Inverts 7 2 := by
  intro seven
  have hNumbers := isExtensionOf_seven (c := 1) (by decide)
  have hIrreducible := hNumbers.irreducible_of_ofPolynomial_eq (by decide) (Nat.le_succ 2)
    (eq_ok_get_toOption isSome_ofPolynomial_seven)
  obtain ⟨-, -, hPrime, hPolynomial⟩ := inversion_exact seven
  exact ⟨hPrime hNumbers.prime_toNat (by decide), hPolynomial _ hNumbers hIrreducible⟩

end NybergRueppel.CoordinateField
