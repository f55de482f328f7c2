import NybergRueppel.Proofs.Field.Construction

/-!
Powers with exponents of any number of limbs. The loop of residues and that of the elements of a
coordinate field are exact in their rings, agree in degree one, and take no notice of limbs of zero
above the exponent.
-/
namespace NybergRueppel

/-- Powers are those of the residues modulo `m`. A base in Montgomery form stays in that form, and
a plain base may have any size. -/
structure Montgomery.RaisesModulo {n : Nat} (ctx : Montgomery n) (m : Nat) : Prop where
  pow_lt : ∀ a exponent, a.toNat < m → (ctx.pow a exponent).toNat < m
  toNat_decode_pow : ∀ a exponent, a.toNat < m →
    (ctx.decode (ctx.pow a exponent)).toNat = (ctx.decode a).toNat ^ Limbs.toNat exponent % m
  toNat_powMod : ∀ a e, (ctx.powMod a e).toNat = a.toNat ^ e.toNat % m
  pow_append_zeros : ∀ a exponent count,
    ctx.pow a (exponent ++ List.replicate count 0) = ctx.pow a exponent

/-- Powers of elements are those of a ring, where decoding an element writes a number. -/
structure CoordinateField.RaisesIn {n : Nat} (f : CoordinateField n) {R : Type} [CommRing R]
    (number : List (FixedNat n) → R) : Prop where
  isElement_pow : ∀ a exponent, f.IsElement a → f.IsElement (f.pow a exponent)
  number_pow : ∀ a exponent, f.IsElement a →
    number (f.decode (f.pow a exponent)) = number (f.decode a) ^ Limbs.toNat exponent
  pow_append_zeros : ∀ a exponent count,
    f.pow a (exponent ++ List.replicate count 0) = f.pow a exponent

variable {n : Nat}

theorem Montgomery.raisesModulo (ctx : Montgomery n) : ctx.RaisesModulo ctx.modulus.toNat where
  pow_lt _ exponent ha := ctx.pow_lt ha exponent
  toNat_decode_pow _ exponent ha := ctx.toNat_decode_pow ha exponent
  toNat_powMod := ctx.toNat_powMod
  pow_append_zeros a exponent count := powBits_append_zeros ctx.mul exponent count ctx.one a

theorem RingRealization.raisesIn {f : CoordinateField n} {R : Type} [CommRing R]
    (r : RingRealization f R) : f.RaisesIn r.number where
  isElement_pow _ exponent ha := CoordinateField.isElement_pow r.isBuilt ha exponent
  number_pow a exponent ha := by
    have hPower := CoordinateField.isElement_pow r.isBuilt ha exponent
    rw [r.number_decode hPower, r.value_pow ha, r.number_decode ha]
  pow_append_zeros a exponent count := powBits_append_zeros f.mul exponent count f.one a

namespace CoordinateField

variable {f : CoordinateField n} {prime m : FixedNat n} {coeffs : List (FixedNat n)}

theorem raisesIn_of_ofPrime_eq (h : ofPrime prime = .ok f) :
    f.RaisesIn fun cs => ((cs.headD 0).toNat : ZMod prime.toNat) := by
  obtain ⟨hBuilt, rfl, hDegree⟩ := ofPrime_eq_ok h
  exact funext (number_residueRing hBuilt hDegree) ▸ (residueRing hBuilt hDegree).raisesIn

theorem raisesIn_of_ofPolynomial_eq (h : ofPolynomial prime coeffs = .ok f) :
    f.RaisesIn fun cs => AdjoinRoot.mk (monicPolynomial prime.toNat coeffs)
      (lowPolynomial prime.toNat coeffs.length cs) := by
  obtain ⟨hLower, hUpper, hBuild⟩ := ofPolynomial_eq_ok h
  obtain ⟨r, hNumber⟩ := exists_ringRealization_of_build_eq (by omega) hUpper hBuild
  exact funext hNumber ▸ r.raisesIn

/-- Powers by exponents of any number of limbs are exact for every odd modulus from three on, a
prime or not: those of the residues, those of the field of degree one, which are those of the
residues, and those of every extension that is accepted. -/
theorem powers_exact (hOdd : m.toNat % 2 = 1) (hLarge : 3 ≤ m.toNat) :
    (∃ ctx f, Montgomery.ofModulus? m = some ctx ∧ ctx.RaisesModulo m.toNat ∧
      ofPrime m = .ok f ∧ f.RaisesIn (fun cs => ((cs.headD 0).toNat : ZMod m.toNat)) ∧
        ∀ a exponent, f.pow a exponent = .ofBase (ctx.pow (a.coeff 0) exponent)) ∧
      ∀ coeffs f, ofPolynomial m coeffs = .ok f →
        f.RaisesIn fun cs => AdjoinRoot.mk (monicPolynomial m.toNat coeffs)
          (lowPolynomial m.toNat coeffs.length cs) := by
  refine ⟨?_, fun coeffs f h => raisesIn_of_ofPolynomial_eq h⟩
  obtain ⟨f, hField⟩ := (exists_ofPrime_eq_ok_iff m).mpr ⟨hOdd, hLarge⟩
  have hRaises := raisesIn_of_ofPrime_eq hField
  obtain ⟨-, rfl, hDegree⟩ := ofPrime_eq_ok hField
  exact ⟨f.mont, f, f.mont.ofModulus?_modulus, f.mont.raisesModulo, hField, hRaises,
    pow_eq_ofBase hDegree⟩

/-- The tenth power of two is four modulo 15. Over this modulus `x ^ 2 + 1` has no root. -/
theorem powers_exact_fifteen :
    let fifteen : FixedNat 1 := .ofWord 15
    let coeffs : List (FixedNat 1) := [.ofWord 1, 0]
    (∃ ctx, Montgomery.ofModulus? fifteen = some ctx ∧
      (ctx.powMod (.ofWord 2) (.ofWord 10)).toNat = 4) ∧
    ∃ f, ofPolynomial fifteen coeffs = .ok f ∧
      f.RaisesIn fun cs => AdjoinRoot.mk (monicPolynomial fifteen.toNat coeffs)
        (lowPolynomial fifteen.toNat 2 cs) := by
  intro fifteen coeffs
  obtain ⟨⟨ctx, -, hContext, hRaises, -⟩, hPolynomial⟩ :=
    powers_exact (m := fifteen) (by decide) (by decide)
  have hExtension := eq_ok_get_toOption isSome_ofPolynomial_fifteen
  exact ⟨⟨ctx, hContext, (hRaises.toNat_powMod _ _).trans (by decide)⟩, _, hExtension,
    hPolynomial coeffs _ hExtension⟩

end CoordinateField

end NybergRueppel
