import NybergRueppel.Proofs.Checked.Group
import NybergRueppel.Proofs.Group.Points
import NybergRueppel.Proofs.Group.Requirements
import NybergRueppel.Proofs.Signature.Verify

/-!
Affine points that are taken into a group. A pair of lists of integers is accepted exactly if it
writes a solution of the equation of the curve in the ring of the remainders modulo the polynomial
of the coordinates, in canonical form, and the coordinates of the point that it gives are the two
lists again. The modulus does not have to be a prime for this, nor the polynomial irreducible.
-/
namespace NybergRueppel

open CoordinateField Polynomial

variable {n : Nat}

/-- A curve `y ^ 2 = x ^ 3 + a * x + b` in plain integers. An extension is given by the low
coefficients of a monic polynomial. -/
structure CurveEquation (n : Nat) where
  prime : FixedNat n
  extension : Option (List (FixedNat n))
  a : List (FixedNat n)
  b : List (FixedNat n)
  deriving DecidableEq

/-- The equation that a parameter set writes. -/
def DomainParameters.equation (n : Nat) (p : DomainParameters) : CurveEquation n where
  prime := p.modulus n
  extension := p.extension.map (List.map (writtenNumber n))
  a := p.numbers n .a
  b := p.numbers n .b

namespace CurveEquation

variable (e : CurveEquation n)

/-- The coordinate field that the equation is over. -/
def field : Except Failure (CoordinateField n) :=
  match e.extension with
  | none => ofPrime e.prime
  | some coeffs => ofPolynomial e.prime coeffs

def degree : Nat :=
  match e.extension with
  | none => 1
  | some coeffs => coeffs.length

/-- The monic polynomial of the coordinates, which is `x` if there is no extension. -/
noncomputable def polynomial : (ZMod e.prime.toNat)[X] :=
  lowMonic e.prime.toNat e.degree (e.extension.getD [])

/-- The remainder that a list of coefficients writes. -/
noncomputable def remainder (cs : List (FixedNat n)) : AdjoinRoot e.polynomial :=
  AdjoinRoot.mk e.polynomial (lowPolynomial e.prime.toNat e.degree cs)

/-- Two lists that write the coordinates of a point on the curve in canonical form. -/
structure IsPoint (xs ys : List (FixedNat n)) : Prop where
  isCanonical_x : IsCanonical e.prime.toNat e.degree xs
  isCanonical_y : IsCanonical e.prime.toNat e.degree ys
  equation :
    e.remainder ys ^ 2 = e.remainder xs ^ 3 + e.remainder e.a * e.remainder xs + e.remainder e.b

variable {e}

theorem build_eq_of_field_eq {f : CoordinateField n} (h : e.field = .ok f) :
    1 ≤ e.degree ∧ e.degree ≤ maxExtensionDegree ∧
      build e.prime e.degree (e.extension.getD []) = .ok f := by
  obtain ⟨prime, extension, a, b⟩ := e
  cases extension with
  | none => exact ⟨Nat.le_refl 1, (by decide : 1 ≤ maxExtensionDegree), h⟩
  | some coeffs =>
      obtain ⟨hLower, hUpper, hBuild⟩ := ofPolynomial_eq_ok h
      exact ⟨Nat.le_of_succ_le hLower, hUpper, hBuild⟩

section Residues

variable {prime : FixedNat n} {a b : List (FixedNat n)}

theorem polynomial_of_none : (CurveEquation.mk prime none a b).polynomial = X := by
  simp [polynomial, lowMonic, lowPolynomial, degree]

theorem remainder_singleton (c : FixedNat n) :
    (CurveEquation.mk prime none a b).remainder [c] = AdjoinRoot.of _ (c.toNat : ZMod _) := by
  have hConstant : lowPolynomial prime.toNat 1 [c] = C (c.toNat : ZMod prime.toNat) := by
    simp [lowPolynomial]
  exact congrArg (AdjoinRoot.mk _) hConstant

/-- Residues are not identified when the remainders modulo `x` are formed. -/
theorem of_injective : Function.Injective
    (AdjoinRoot.of (CurveEquation.mk prime none a b).polynomial) := by
  have hRoot : (CurveEquation.mk prime none a b).polynomial.eval₂ (RingHom.id _) 0 = 0 := by
    rw [polynomial_of_none, eval₂_X]
  intro v w hSame
  have hLift := congrArg (AdjoinRoot.lift (RingHom.id _) 0 hRoot) hSame
  rwa [AdjoinRoot.lift_of, AdjoinRoot.lift_of] at hLift

/-- Without an extension the equation is a congruence. -/
theorem isPoint_singleton_iff {a b x y : FixedNat n} :
    (CurveEquation.mk prime none [a] [b]).IsPoint [x] [y] ↔
      x.toNat < prime.toNat ∧ y.toNat < prime.toNat ∧
        y.toNat ^ 2 % prime.toNat = (x.toNat ^ 3 + a.toNat * x.toNat + b.toNat) % prime.toNat := by
  have hCanonical (c : FixedNat n) : IsCanonical prime.toNat 1 [c] ↔ c.toNat < prime.toNat :=
    ⟨fun h => h.lt_modulus c (List.mem_singleton_self c), fun h => ⟨rfl, by simpa using h⟩⟩
  have hEquation : (CurveEquation.mk prime none [a] [b]).remainder [y] ^ 2 =
        (CurveEquation.mk prime none [a] [b]).remainder [x] ^ 3 +
          (CurveEquation.mk prime none [a] [b]).remainder [a] *
            (CurveEquation.mk prime none [a] [b]).remainder [x] +
          (CurveEquation.mk prime none [a] [b]).remainder [b] ↔
      (y.toNat ^ 2) % prime.toNat =
        (x.toNat ^ 3 + a.toNat * x.toNat + b.toNat) % prime.toNat := by
    simp only [remainder_singleton, ← map_pow, ← map_mul, ← map_add, of_injective.eq_iff]
    rw [← ZMod.natCast_eq_natCast_iff']
    push_cast
    rfl
  rw [← hCanonical x, ← hCanonical y, ← hEquation]
  exact ⟨fun h => ⟨h.isCanonical_x, h.isCanonical_y, h.equation⟩,
    fun ⟨hx, hy, h⟩ => ⟨hx, hy, h⟩⟩

end Residues

end CurveEquation

namespace CurveGroup

open Checked

variable {group : CurveGroup n} {e : CurveEquation n} {xs ys : List (FixedNat n)}

/-- The coordinates of a group are those of the equation, and its curve has the coefficients of the
equation. -/
structure HasEquation (group : CurveGroup n) (e : CurveEquation n) : Prop where
  field_eq : e.field = .ok group.field
  encode?_a : group.field.encode? e.a = some group.curve.a
  encode?_b : group.field.encode? e.b = some group.curve.b

/-- Every group over a field that was constructed has an equation, if the coefficients of its curve
were made in the field. -/
theorem exists_hasEquation (hField : group.field.IsConstructed)
    (ha : group.field.Reachable group.curve.a) (hb : group.field.Reachable group.curve.b) :
    ∃ e, group.HasEquation e := by
  have hA := encode?_decode hField.isBuilt (ha.isElement hField.isBuilt)
  have hB := encode?_decode hField.isBuilt (hb.isElement hField.isBuilt)
  cases hField with
  | ofPrime prime h => exact ⟨⟨prime, none, _, _⟩, h, hA, hB⟩
  | ofPolynomial prime coeffs h => exact ⟨⟨prime, some coeffs, _, _⟩, h, hA, hB⟩

/-- A group that was built from parameters has the equation that they write. -/
theorem hasEquation_of_ofParameters {p : DomainParameters} (h : ofParameters n p = .ok group) :
    group.HasEquation (p.equation n) := by
  obtain ⟨-, -, -, hField, hA, hB, -⟩ := ofParameters_eq_ok h
  refine ⟨?_, encode?_eq_of_read_eq rfl hA, encode?_eq_of_read_eq rfl hB⟩
  obtain ⟨prime, hPrime, hField⟩ := exists_of_bind_eq_ok hField
  obtain rfl := eq_writtenNumber_of_readNumber_eq hPrime
  rw [CurveEquation.field, DomainParameters.equation]
  cases hExtension : p.extension with
  | none =>
      rw [hExtension] at hField
      exact hField
  | some texts =>
      rw [hExtension] at hField
      obtain ⟨coeffs, hCoeffs, hField⟩ := exists_of_bind_eq_ok hField
      obtain rfl := eq_map_writtenNumber_of_readNumbers_eq hCoeffs
      exact hField

namespace HasEquation

variable (h : group.HasEquation e)

include h

theorem isBuilt : group.field.IsBuilt := by
  obtain ⟨hLower, hUpper, hBuild⟩ := CurveEquation.build_eq_of_field_eq h.field_eq
  exact (build_eq_ok hLower hUpper hBuild).1

/-- The elements of the field are written by the canonical lists. -/
theorem exists_encode?_eq_some_iff (cs : List (FixedNat n)) :
    (∃ a, group.field.encode? cs = some a) ↔ IsCanonical e.prime.toNat e.degree cs := by
  obtain ⟨hLower, hUpper, hBuild⟩ := CurveEquation.build_eq_of_field_eq h.field_eq
  obtain ⟨-, hModulus, hDegree, -⟩ := build_eq_ok hLower hUpper hBuild
  rw [← hModulus, ← hDegree]
  exact ⟨fun ⟨_, hEncoded⟩ => .of_encode?_eq hEncoded, fun hCanonical => ⟨_, hCanonical.encode?_eq⟩⟩

/-- The elements of the field stand for the remainders that the lists write. -/
theorem exists_realization :
    ∃ r : RingRealization group.field (AdjoinRoot e.polynomial),
      ∀ cs a, group.field.encode? cs = some a → r.value a = e.remainder cs := by
  obtain ⟨hLower, hUpper, hBuild⟩ := CurveEquation.build_eq_of_field_eq h.field_eq
  obtain ⟨r, hNumber⟩ := exists_ringRealization_of_build_eq hLower hUpper hBuild
  exact ⟨r, fun cs a hEncoded => (r.value_of_encode?_eq hEncoded).trans (hNumber cs)⟩

/-- The check in Jacobian coordinates and Montgomery form is the equation of the integers. -/
theorem contains_ofAffine_iff {x y : FieldElement n} (hx : group.field.encode? xs = some x)
    (hy : group.field.encode? ys = some y) :
    group.curve.contains (group.curve.ofAffine x y) = true ↔ e.IsPoint xs ys := by
  obtain ⟨r, hValue⟩ := h.exists_realization
  have hCheck : group.curve.contains (group.curve.ofAffine x y) = true ↔
      r.value y ^ 2 = r.value x ^ 3 + r.value group.curve.a * r.value x + r.value group.curve.b :=
    Curve.contains_ofAffine_iff r (isElement_of_encode?_eq h.encode?_a)
      (isElement_of_encode?_eq h.encode?_b) (isElement_of_encode?_eq hx)
      (isElement_of_encode?_eq hy)
  rw [hValue ys y hy, hValue xs x hx, hValue e.a _ h.encode?_a, hValue e.b _ h.encode?_b] at hCheck
  rw [hCheck]
  refine ⟨fun hEquation => ⟨?_, ?_, hEquation⟩, fun hPoint => hPoint.equation⟩
  · exact (h.exists_encode?_eq_some_iff xs).mp ⟨x, hx⟩
  · exact (h.exists_encode?_eq_some_iff ys).mp ⟨y, hy⟩

/-- Two lists write a point, which is accepted, or they are refused. -/
theorem ofAffine_cases (xs ys : List (FixedNat n)) :
    (e.IsPoint xs ys ∧ ∃ x y, group.field.encode? xs = some x ∧ group.field.encode? ys = some y ∧
      group.ofAffine xs ys = .ok (group.curve.ofAffine x y)) ∨
    (¬e.IsPoint xs ys ∧ group.ofAffine xs ys = .error .invalidPoint) := by
  by_cases hEncoded : (∃ x, group.field.encode? xs = some x) ∧ ∃ y, group.field.encode? ys = some y
  · obtain ⟨⟨x, hx⟩, y, hy⟩ := hEncoded
    have hContains := h.contains_ofAffine_iff hx hy
    rw [ofAffine, hx, hy]
    by_cases hPoint : e.IsPoint xs ys
    · exact .inl ⟨hPoint, x, y, rfl, rfl, if_pos (hContains.mpr hPoint)⟩
    · exact .inr ⟨hPoint, if_neg (mt hContains.mp hPoint)⟩
  · refine .inr ⟨fun hPoint => hEncoded ⟨?_, ?_⟩, ?_⟩
    · exact (h.exists_encode?_eq_some_iff xs).mpr hPoint.isCanonical_x
    · exact (h.exists_encode?_eq_some_iff ys).mpr hPoint.isCanonical_y
    · rw [ofAffine]
      split
      · rename_i x y hx hy
        exact absurd ⟨⟨x, hx⟩, y, hy⟩ hEncoded
      · rfl

end HasEquation

/-- Every group that was made by the constructors has an equation in plain integers, and points are
taken into it without stopping. Accepted are the lists that write a solution of the equation in
canonical form and no others; the point is finite, lies on the curve and has the element length of
the group, and its coordinates are the lists that were taken in. -/
theorem point_import_exact (group : CurveGroup n) :
    (group.field.IsConstructed → group.field.Reachable group.curve.a →
      group.field.Reachable group.curve.b → ∃ e, group.HasEquation e) ∧
    ∀ e, group.HasEquation e → ∀ xs ys : List (FixedNat n),
      group.checkedOfAffine xs ys = .ok (group.ofAffine xs ys) ∧
      ((∃ p, group.ofAffine xs ys = .ok p) ↔ e.IsPoint xs ys) ∧
      (¬e.IsPoint xs ys → group.ofAffine xs ys = .error .invalidPoint) ∧
      ∀ p, group.ofAffine xs ys = .ok p →
        p.isInfinity = false ∧ p.elementLength = group.elementLength ∧
        group.curve.contains p = true ∧ group.toAffine? p = some (xs, ys) ∧
        group.checkedToAffine? p = .ok (some (xs, ys)) := by
  refine ⟨exists_hasEquation, ?_⟩
  intro e h xs ys
  refine ⟨checkedOfAffine_eq h.isBuilt xs ys, ?_, ?_, ?_⟩
  · rcases h.ofAffine_cases xs ys with ⟨hPoint, x, y, -, -, hAccepted⟩ | ⟨hNoPoint, hRefused⟩
    · exact iff_of_true ⟨_, hAccepted⟩ hPoint
    · refine iff_of_false ?_ hNoPoint
      rintro ⟨p, hAccepted⟩
      cases hRefused.symm.trans hAccepted
  · intro hNoPoint
    rcases h.ofAffine_cases xs ys with ⟨hPoint, -⟩ | ⟨-, hRefused⟩
    · exact absurd hPoint hNoPoint
    · exact hRefused
  · intro p hAccepted
    obtain ⟨x, y, hx, hy, rfl, hContains⟩ := ofAffine_eq_ok hAccepted
    have hSame := toAffine?_ofAffine h.isBuilt hx hy
    refine ⟨group.field.isZero_one, rfl, hContains, hSame, ?_⟩
    rw [checkedToAffine?_eq h.isBuilt, hSame]

end CurveGroup

/-- A curve over the remainders modulo 15 and `x ^ 2 + 1`, with the point `(1 + 2 * x, 3 + x)` and
an order that is not the one of the point. -/
def remainderParameters : DomainParameters where
  name := "remainders"
  prime := "F"
  extension := some ["1", "0"]
  a := .extension ["1", "0"]
  b := .extension ["3", "6"]
  generator := { x := .extension ["1", "2"], y := .extension ["3", "1"] }
  order := "17"

theorem isSome_remainderGroup :
    (CurveGroup.ofParameters 1 remainderParameters).toOption.isSome = true := by
  decide +kernel

def remainderGroup : CurveGroup 1 :=
  (CurveGroup.ofParameters 1 remainderParameters).toOption.get isSome_remainderGroup

theorem hasEquation_toyGroup :
    toyGroup.HasEquation ⟨.ofWord 31, none, [.ofWord 1], [.ofWord 28]⟩ := by
  obtain ⟨-, hCurve, -⟩ := CurveGroup.ofBasePoint_eq_ok (eq_ok_get_toOption isSome_toyGroup)
  refine ⟨?_, by decide +kernel, by decide +kernel⟩
  rw [CurveGroup.field, toyGroup, hCurve]
  exact eq_ok_get_toOption isSome_toyField

/-- One pair of lists is taken in and given back, and another one does not solve the equation. On
the toy curve, `y ^ 2 = x ^ 3 + x + 28` modulo 31, the coordinate 31 is refused, although it stands
for the same residue as the coordinate 0, which is accepted. -/
theorem point_import_exact_remainderGroup :
    (∃ p, remainderGroup.ofAffine [.ofWord 1, .ofWord 2] [.ofWord 3, .ofWord 1] = .ok p ∧
      remainderGroup.toAffine? p = some ([.ofWord 1, .ofWord 2], [.ofWord 3, .ofWord 1])) ∧
    ¬(remainderParameters.equation 1).IsPoint [.ofWord 1, .ofWord 2] [.ofWord 3, .ofWord 2] ∧
    (∃ p, toyGroup.ofAffine [0] [.ofWord 11] = .ok p) ∧
    toyGroup.ofAffine [.ofWord 31] [.ofWord 11] = .error .invalidPoint := by
  have hGroup : remainderGroup.HasEquation (remainderParameters.equation 1) :=
    CurveGroup.hasEquation_of_ofParameters (eq_ok_get_toOption isSome_remainderGroup)
  have hImport := remainderGroup.point_import_exact.2 _ hGroup
  have hToyImport := toyGroup.point_import_exact.2 _ hasEquation_toyGroup
  refine ⟨?_, ?_, ?_, ?_⟩
  · obtain ⟨-, -, -, hAgain⟩ := hImport [.ofWord 1, .ofWord 2] [.ofWord 3, .ofWord 1]
    have hAccepted := eq_ok_get_toOption (show (remainderGroup.ofAffine
      [.ofWord 1, .ofWord 2] [.ofWord 3, .ofWord 1]).toOption.isSome = true by decide +kernel)
    obtain ⟨-, -, -, hSame, -⟩ := hAgain _ hAccepted
    exact ⟨_, hAccepted, hSame⟩
  · obtain ⟨-, hIff, -, -⟩ := hImport [.ofWord 1, .ofWord 2] [.ofWord 3, .ofWord 2]
    have hRefused : (remainderGroup.ofAffine
        [.ofWord 1, .ofWord 2] [.ofWord 3, .ofWord 2]).toOption.isSome = false := by decide +kernel
    rw [← hIff]
    rintro ⟨p, hAccepted⟩
    rw [hAccepted] at hRefused
    cases hRefused
  · obtain ⟨-, hIff, -, -⟩ := hToyImport [0] [.ofWord 11]
    rw [hIff, CurveEquation.isPoint_singleton_iff]
    decide
  · obtain ⟨-, -, hRefused, -⟩ := hToyImport [.ofWord 31] [.ofWord 11]
    apply hRefused
    rw [CurveEquation.isPoint_singleton_iff]
    decide

end NybergRueppel
