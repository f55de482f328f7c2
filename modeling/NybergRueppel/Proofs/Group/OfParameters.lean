import NybergRueppel.Group.OfParameters
import NybergRueppel.Proofs.Field.Canonical
import NybergRueppel.Proofs.Group.Multiples

/-!
Groups that are built from parameter sets over prime fields. Whatever the constructor returns has
the coefficients and the base point that the parameter set writes, as residues modulo the prime.
-/
namespace NybergRueppel

namespace CoordinateField

variable {n : Nat} {f : CoordinateField n} {coeffs : List (FixedNat n)} {a : FieldElement n}

theorem read_eq_ok {quantity : Quantity} {c : Coordinate} (h : f.read quantity c = .ok a) :
    ∃ coeffs, c.read n quantity = .ok coeffs ∧ f.encode? coeffs = some a := by
  obtain ⟨coeffs, hCoeffs, h⟩ := exists_of_bind_eq_ok h
  refine ⟨coeffs, hCoeffs, ?_⟩
  cases hEncoded : f.encode? coeffs with
  | none =>
      rw [hEncoded] at h
      cases h
  | some b =>
      rw [hEncoded] at h
      cases h
      rfl

theorem isElement_of_read_eq {quantity : Quantity} {c : Coordinate}
    (h : f.read quantity c = .ok a) : f.IsElement a := by
  obtain ⟨coeffs, -, hEncoded⟩ := read_eq_ok h
  exact isElement_of_encode?_eq hEncoded

/-- The number that is read is below the prime, and the element stands for its residue. -/
theorem IsPrimeField.represents_of_read_eq (hField : f.IsPrimeField) {quantity : Quantity}
    {c : Coordinate} (h : f.read quantity c = .ok a) {k : Nat}
    (hNumber : (c.read n quantity).toOption.map (List.map FixedNat.toNat) = some [k]) :
    k < f.modulus.toNat ∧ hField.realization.Represents a (k : hField.Residues) := by
  have : Fact (Nat.Prime f.mont.modulus.toNat) := ⟨hField.prime⟩
  obtain ⟨coeffs, hCoeffs, hEncoded⟩ := read_eq_ok h
  rw [hCoeffs, Except.toOption, Option.map_some, Option.some.injEq, List.map_eq_singleton_iff]
    at hNumber
  obtain ⟨v, rfl, rfl⟩ := hNumber
  obtain ⟨-, hLess, rfl⟩ := encode?_eq_some hEncoded
  refine ⟨(FixedNat.lt_iff _ _).mp (hLess v (List.mem_singleton_self v)),
    isElement_of_encode?_eq hEncoded, ?_⟩
  refine (value_residueRealization hField.isBuilt hField.degree_eq_one _).trans ?_
  rw [coeff_ofCoeffs hField.isBuilt _ (by rw [hField.degree_eq_one]; exact Nat.one_pos),
    Montgomery.residue_encode]
  rfl

end CoordinateField

theorem Curve.ofCoefficients_eq_ok {n : Nat} {f : CoordinateField n} {a b : FieldElement n}
    {curve : Curve n} (h : ofCoefficients f a b = .ok curve) :
    curve = { field := f, a := a, b := b } := by
  rw [ofCoefficients] at h
  split at h
  · cases h
  · split at h
    · cases h
    · exact (Except.ok.inj h).symm

/-- The numbers of a curve over a prime field and of its base point. -/
structure CurveNumbers where
  prime : Nat
  a : Nat
  x : Nat
  y : Nat
  order : Nat

/-- The parameter set is one over a prime field, and its texts stand for the numbers. -/
structure DomainParameters.Writes (n : Nat) (p : DomainParameters) (v : CurveNumbers) : Prop where
  extension_eq : p.extension = none
  prime_eq : (readNumber n .prime p.prime).toOption.map FixedNat.toNat = some v.prime
  a_eq : (p.a.read n .a).toOption.map (List.map FixedNat.toNat) = some [v.a]
  x_eq : (p.generator.x.read n .generatorX).toOption.map (List.map FixedNat.toNat) = some [v.x]
  y_eq : (p.generator.y.read n .generatorY).toOption.map (List.map FixedNat.toNat) = some [v.y]
  order_eq : (readNumber n .order p.order).toOption.map FixedNat.toNat = some v.order

namespace CurveGroup

variable {n : Nat} {group : CurveGroup n} {p : DomainParameters} {v : CurveNumbers}

/-- The parts of a group are those that were read, one after the other. -/
theorem ofParameters_eq_ok (h : ofParameters n p = .ok group) :
    ∃ x y order, p.readField n = .ok group.curve.field ∧
      group.curve.field.read .a p.a = .ok group.curve.a ∧
      group.curve.field.read .b p.b = .ok group.curve.b ∧
      group.curve.field.read .generatorX p.generator.x = .ok x ∧
      group.curve.field.read .generatorY p.generator.y = .ok y ∧
      readNumber n .order p.order = .ok order ∧
      Curve.ofCoefficients group.curve.field group.curve.a group.curve.b = .ok group.curve ∧
      ofBasePoint p.name group.curve x y order = .ok group := by
  obtain ⟨f, hField, h⟩ := exists_of_bind_eq_ok h
  obtain ⟨a, hA, h⟩ := exists_of_bind_eq_ok h
  obtain ⟨b, hB, h⟩ := exists_of_bind_eq_ok h
  obtain ⟨x, hX, h⟩ := exists_of_bind_eq_ok h
  obtain ⟨y, hY, h⟩ := exists_of_bind_eq_ok h
  obtain ⟨order, hOrder, h⟩ := exists_of_bind_eq_ok h
  obtain ⟨curve, hCurve, h⟩ := exists_of_bind_eq_ok h
  -- The curve of the group is the one that was checked, and its parts are the ones that were read.
  obtain ⟨-, rfl, -⟩ := ofBasePoint_eq_ok h
  have hEq := Curve.ofCoefficients_eq_ok hCurve
  rw [hEq] at hCurve ⊢
  rw [hEq] at h
  exact ⟨x, y, order, hField, hA, hB, hX, hY, hOrder, hCurve, h⟩

/-- What the constructor makes of a parameter set without an extension is a group over a prime field
if its modulus is a prime. -/
theorem OverPrimeField.of_ofParameters (h : ofParameters n p = .ok group)
    (hExtension : p.extension = none) (hPrime : group.field.modulus.toNat.Prime) :
    group.OverPrimeField := by
  obtain ⟨x, y, order, hField, hA, hB, hX, hY, -, hCurve, hGroup⟩ := ofParameters_eq_ok h
  obtain ⟨prime, -, hField⟩ := exists_of_bind_eq_ok hField
  rw [hExtension] at hField
  exact overPrimeField_of_ofBasePoint ⟨⟨prime, hField⟩, hPrime⟩
    ⟨CoordinateField.isElement_of_read_eq hA, CoordinateField.isElement_of_read_eq hB, hCurve⟩
    (CoordinateField.isElement_of_read_eq hX) (CoordinateField.isElement_of_read_eq hY) hGroup

theorem isPrimeField_of_readField (hWrites : p.Writes n v) (hPrime : v.prime.Prime)
    {f : CoordinateField n} (h : p.readField n = .ok f) :
    f.modulus.toNat = v.prime ∧ f.IsPrimeField := by
  obtain ⟨prime, hRead, h⟩ := exists_of_bind_eq_ok h
  rw [hWrites.extension_eq] at h
  have hValue := hWrites.prime_eq
  rw [hRead, Except.toOption, Option.map_some, Option.some.injEq] at hValue
  have hModulus : f.modulus.toNat = v.prime := by
    rw [(CoordinateField.ofPrime_eq_ok h).2.1, hValue]
  exact ⟨hModulus, ⟨prime, h⟩, hModulus ▸ hPrime⟩

/-- The group has the numbers for its prime, its order, its linear coefficient and its base
point. -/
structure OverPrimeField.HasNumbers (h : group.OverPrimeField) (v : CurveNumbers) : Prop where
  modulus_eq : group.curve.field.modulus.toNat = v.prime
  order_eq : group.order.modulus.toNat = v.order
  a_eq : h.isPrimeField.realization.value group.curve.a = (v.a : h.isPrimeField.Residues)
  x_lt : v.x < v.prime
  basePoint_eq : ∃ hNonsingular, h.basePoint =
    .some (v.x : h.isPrimeField.Residues) (v.y : h.isPrimeField.Residues) hNonsingular

theorem overPrimeField_of_ofParameters (hWrites : p.Writes n v) (hPrime : v.prime.Prime)
    (h : ofParameters n p = .ok group) : ∃ hOver : group.OverPrimeField, hOver.HasNumbers v := by
  obtain ⟨x, y, order, hField, hA, hB, hX, hY, hOrder, hCurve, hGroup⟩ := ofParameters_eq_ok h
  obtain ⟨hModulus, hPrimeField⟩ := isPrimeField_of_readField hWrites hPrime hField
  obtain ⟨-, hValueA⟩ := hPrimeField.represents_of_read_eq hA hWrites.a_eq
  obtain ⟨hLess, hValueX⟩ := hPrimeField.represents_of_read_eq hX hWrites.x_eq
  obtain ⟨-, hValueY⟩ := hPrimeField.represents_of_read_eq hY hWrites.y_eq
  let hOver := overPrimeField_of_ofBasePoint hPrimeField
    ⟨hValueA.isElement, CoordinateField.isElement_of_read_eq hB, hCurve⟩ hValueX.isElement
    hValueY.isElement hGroup
  obtain ⟨-, -, hGenerator, hOrderModulus, -⟩ := ofBasePoint_eq_ok hGroup
  have hValueOrder := hWrites.order_eq
  rw [hOrder, Except.toOption, Option.map_some, Option.some.injEq] at hValueOrder
  refine ⟨hOver, hModulus, ?_, hValueA.value_eq, hModulus ▸ hLess, ?_⟩
  · rw [hOrderModulus, hValueOrder]
  · let r := hPrimeField.realization
    have hz : r.value group.generator.z = 1 := by
      rw [hGenerator]
      exact r.value_one
    have hx : r.value group.generator.x / r.value group.generator.z ^ 2 = v.x := by
      rw [hz, one_pow, div_one, hGenerator]
      exact hValueX.value_eq
    have hy : r.value group.generator.y / r.value group.generator.z ^ 3 = v.y := by
      rw [hz, one_pow, div_one, hGenerator]
      exact hValueY.value_eq
    rcases hOver.onCurve_generator.point_eq r hOver.isAccepted with
      ⟨hZero, -⟩ | ⟨-, hNonsingular, hPoint⟩
    · rw [hz] at hZero
      exact absurd hZero one_ne_zero
    · simp only [hx, hy] at hPoint
      rw [hx, hy] at hNonsingular
      exact ⟨hNonsingular, hPoint⟩

end CurveGroup

end NybergRueppel
