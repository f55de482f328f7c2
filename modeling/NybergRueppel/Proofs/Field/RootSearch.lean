import NybergRueppel.Proofs.Field.RemainderRing

/-!
The polynomials of extensions that are refused. Horner's rule computes the value of the polynomial
at a residue, so that the search finds every root there is; the constructors refuse what the search
or the ranges of the coefficients tell them to, and nothing else.
-/
namespace NybergRueppel.CoordinateField

open Finset Polynomial

variable {n : Nat} {f : CoordinateField n}

/-- One step of Horner's rule. -/
def hornerStep (f : CoordinateField n) (x : FixedNat n) (i : Nat) (value : FixedNat n) :
    FixedNat n :=
  FixedNat.addMod f.modulus (f.polynomial.coeff i) (f.mont.mul value x)

/-- Horner's rule takes in the coefficients from the highest down. -/
theorem residue_foldr_hornerStep (hf : f.IsBuilt) {x : FixedNat n} (k : Nat) {value : FixedNat n}
    (hValue : value.toNat < f.modulus.toNat) :
    ((List.range k).foldr (f.hornerStep x) value).toNat < f.modulus.toNat ∧
      f.mont.residue ((List.range k).foldr (f.hornerStep x) value) =
        (∑ i ∈ range k, f.mont.residue (f.polynomial.coeff i) * f.mont.residue x ^ i) +
          f.mont.residue value * f.mont.residue x ^ k := by
  induction k generalizing value with
  | zero => simpa using hValue
  | succ k ih =>
      have hCoeff := hf.isElement_polynomial.coeff_lt k
      have hProduct := f.mont.mul_lt hValue x
      obtain ⟨hLess, hResidue⟩ := ih (f.mont.addMod_lt hCoeff hProduct)
      rw [List.range_succ, List.foldr_append, List.foldr_cons, List.foldr_nil]
      refine ⟨hLess, hResidue.trans ?_⟩
      rw [f.mont.residue_addMod hCoeff hProduct, f.mont.residue_mul hValue, sum_range_succ]
      ring

/-- The value of the polynomial at a residue, in Montgomery form. -/
theorem residue_polynomialAt (hf : f.IsBuilt) (x : FixedNat n) :
    (f.polynomialAt x).toNat < f.modulus.toNat ∧
      f.mont.residue (f.polynomialAt x) = f.definingPolynomial.eval (f.mont.residue x) := by
  obtain ⟨hLess, hResidue⟩ := residue_foldr_hornerStep hf (x := x) f.degree f.mont.one_lt
  refine ⟨hLess, hResidue.trans ?_⟩
  rw [Montgomery.residue_one, one_mul, add_comm]
  simp [definingPolynomial, eval_finsetSum]

theorem isZero_iff_residue_eq_zero {v : FixedNat n} (hv : v.toNat < f.modulus.toNat) :
    v.isZero = true ↔ f.mont.residue v = 0 := by
  rw [FixedNat.isZero_iff_eq_zero]
  constructor
  · rintro rfl
    exact f.mont.residue_zero
  · intro h
    exact f.mont.eq_of_residue_eq hv f.mont.zero_lt_modulus (h.trans f.mont.residue_zero.symm)

/-- A zero is found exactly at the roots of the polynomial. -/
theorem isZero_polynomialAt_iff (hf : f.IsBuilt) (x : FixedNat n) :
    (f.polynomialAt x).isZero = true ↔ f.definingPolynomial.IsRoot (f.mont.residue x) := by
  obtain ⟨hLess, hResidue⟩ := residue_polynomialAt hf x
  rw [isZero_iff_residue_eq_zero hLess, hResidue, IsRoot.def]

/-- An integer of one significant limb is that limb. -/
theorem toNat_headD_of_lt {p : FixedNat n} (h : p.toNat < 2 ^ 64) :
    (p.limbs.headD 0).toNat = p.toNat :=
  (Limbs.toNat_headD p.limbs).trans (Nat.mod_eq_of_lt h)

/-- The modulus is too large for a search exactly from the bound on, whatever its width is. -/
theorem searchable_iff (p : FixedNat n) :
    ¬(64 < p.bitLength ∨ rootSearchBound ≤ p.limbs.headD 0) ↔ p.toNat < 2 ^ 16 := by
  have hWide : ¬64 < p.bitLength ↔ p.toNat < 2 ^ 64 := by
    rw [Nat.not_lt, FixedNat.bitLength_le_iff]
  have hBound : rootSearchBound.toNat = 2 ^ 16 := rfl
  rw [not_or, hWide, UInt64.not_le, UInt64.lt_iff_toNat_lt, hBound]
  constructor
  · rintro ⟨hLow, hHead⟩
    rwa [toNat_headD_of_lt hLow] at hHead
  · intro h
    have hLow : p.toNat < 2 ^ 64 := h.trans (by decide)
    exact ⟨hLow, (toNat_headD_of_lt hLow).trans_lt h⟩

/-- The numbers below the modulus go through all residues. -/
theorem exists_root_iff (hf : f.IsBuilt) (hSmall : f.modulus.toNat < 2 ^ 16) :
    ((List.range (f.modulus.limbs.headD 0).toNat).any fun v =>
      (f.polynomialAt (f.mont.encode (FixedNat.ofWord v.toUInt64))).isZero) = true ↔
      ∃ x, f.definingPolynomial.IsRoot x := by
  have hEncode {v : Nat} (hv : v < f.modulus.toNat) :
      f.mont.residue (f.mont.encode (FixedNat.ofWord v.toUInt64)) = (v : f.Residue) := by
    rw [Montgomery.residue_encode, FixedNat.toNat_ofWord f.mont.limbs_pos, Nat.toUInt64,
      UInt64.toNat_ofNat', Nat.mod_eq_of_lt (hv.trans (hSmall.trans (by decide)))]
  rw [toNat_headD_of_lt (hSmall.trans (by decide)), List.any_eq_true]
  constructor
  · rintro ⟨v, hv, hRoot⟩
    exact ⟨_, (isZero_polynomialAt_iff hf _).mp hRoot⟩
  · rintro ⟨x, hRoot⟩
    have hx : x.val < f.modulus.toNat := ZMod.val_lt x
    refine ⟨x.val, List.mem_range.mpr hx, ?_⟩
    rw [isZero_polynomialAt_iff hf, hEncode hx, ZMod.natCast_zmod_val]
    exact hRoot

/-- A polynomial is found to be reducible if it has no constant term, and for a small modulus and
degree if it has a root. -/
theorem isReducible_iff (hf : f.IsBuilt) :
    f.isReducible = true ↔ f.polynomial.coeff 0 = 0 ∨
      f.degree ≤ 3 ∧ f.modulus.toNat < 2 ^ 16 ∧ ∃ x, f.definingPolynomial.IsRoot x := by
  have hSearch : 3 < f.degree ∨ 64 < f.modulus.bitLength ∨
      rootSearchBound ≤ f.modulus.limbs.headD 0 ↔ ¬(f.degree ≤ 3 ∧ f.modulus.toNat < 2 ^ 16) := by
    rw [← searchable_iff, not_and_or, not_not, Nat.not_le]
  rw [isReducible, ← and_assoc]
  split <;> rename_i hConstant
  · simp [(FixedNat.isZero_iff_eq_zero _).mp hConstant]
  · rw [FixedNat.isZero_iff_eq_zero] at hConstant
    simp only [Bool.or_eq_true, decide_eq_true_eq, or_assoc, hSearch, hConstant, false_or]
    split <;> rename_i hSmall
    · rw [iff_false_intro hSmall, false_and]
      exact iff_of_false Bool.false_ne_true id
    · have hSmall := not_not.mp hSmall
      rw [exists_root_iff hf hSmall.2, iff_true_intro hSmall, true_and]

end NybergRueppel.CoordinateField
