import NybergRueppel.Proofs.Curve.RingPoint
import NybergRueppel.Proofs.Field.RemainderRing
import NybergRueppel.Proofs.Group.OfParameters

/-!
The points of a group over a Galois field. Whatever a caller makes with the operations of the group
lies on its curve and has its element length, and its affine coordinates are those of the same point
in other Jacobian coordinates.
-/
namespace NybergRueppel

namespace Curve

variable {n : Nat} {curve : Curve n} {L : Type} [Field L] (r : Realization curve.field L)

include r in
/-- The affine coordinates of a point on the curve are elements, and they pass the check. -/
theorem OnCurve.exists_affine? (hCurve : curve.IsAccepted) {p : JacobianPoint n}
    (hp : curve.OnCurve p) (hFinite : p.isInfinity = false) :
    ∃ x y, curve.affine? p = some (x, y) ∧ curve.OnCurve (curve.ofAffine x y) := by
  have hz : r.value p.z ≠ 0 := by
    rw [ne_eq, ← r.isZero_iff hp.isElement_z, ← JacobianPoint.isInfinity, hFinite]
    exact Bool.false_ne_true
  have hEquation := (contains_iff r hCurve hp.isElement_x hp.isElement_y hp.isElement_z).mp
    hp.contains_eq
  obtain ⟨x, y, hAffine, hx, hy⟩ :=
    affine?_of_value_ne_zero (r := r) hp.isElement_x hp.isElement_y hp.isElement_z hz
  have hOne := CoordinateField.isElement_one r.isBuilt
  refine ⟨x, y, hAffine, hx.isElement, hy.isElement, hOne, ?_⟩
  rw [contains_iff r hCurve hx.isElement hy.isElement hOne]
  right
  rw [ofAffine, r.value_one, one_pow, one_pow, div_one, div_one, hx.value_eq, hy.value_eq]
  exact hEquation.resolve_left hz

end Curve

namespace CurveGroup

open Curve

variable {n : Nat} {group : CurveGroup n} {p : JacobianPoint n}

/-- The curve is one over a Galois field that its constructor takes, and the group comes from a base
point and an order. -/
structure OverGaloisField (group : CurveGroup n) : Prop where
  overGaloisField : group.curve.OverGaloisField
  ofBasePoint_eq : ∃ x y order, group.curve.field.IsElement x ∧ group.curve.field.IsElement y ∧
    ofBasePoint group.name group.curve x y order = .ok group

/-- A field that is read comes from one of its two constructors. -/
theorem isConstructed_of_readField {params : DomainParameters} {f : CoordinateField n}
    (h : params.readField n = .ok f) : f.IsConstructed := by
  obtain ⟨prime, -, h⟩ := exists_of_bind_eq_ok h
  cases hExtension : params.extension with
  | none =>
      rw [hExtension] at h
      exact .ofPrime prime h
  | some texts =>
      rw [hExtension] at h
      obtain ⟨coeffs, -, h⟩ := exists_of_bind_eq_ok h
      exact .ofPolynomial prime coeffs h

/-- What the constructor makes of a parameter set is such a group if its prime is one and if the
polynomial of an extension does not split into factors. -/
theorem overGaloisField_of_ofParameters {params : DomainParameters}
    (h : ofParameters n params = .ok group) (hPrime : group.field.modulus.toNat.Prime)
    (hIrreducible : 1 < group.field.degree → Irreducible group.field.definingPolynomial) :
    group.OverGaloisField := by
  obtain ⟨x, y, order, hField, hA, hB, hX, hY, -, hCurve, hGroup⟩ := ofParameters_eq_ok h
  refine ⟨⟨⟨isConstructed_of_readField hField, hPrime, hIrreducible⟩, ?_⟩, x, y, order, ?_, ?_, ?_⟩
  · exact ⟨CoordinateField.isElement_of_read_eq hA, CoordinateField.isElement_of_read_eq hB, hCurve⟩
  · exact CoordinateField.isElement_of_read_eq hX
  · exact CoordinateField.isElement_of_read_eq hY
  · obtain ⟨hName, -⟩ := ofBasePoint_eq_ok hGroup
    rwa [hName]

/-- The points that a caller makes with the operations of a group and of its curve. -/
inductive Makes (group : CurveGroup n) : JacobianPoint n → Prop where
  | generator : group.Makes group.generator
  | identity : group.Makes group.curve.identity
  | ofAffine {x y : List (FixedNat n)} {p : JacobianPoint n} (h : group.ofAffine x y = .ok p) :
      group.Makes p
  | publicKey {key : BufferedInt} {p : JacobianPoint n} {ws ws' : Workspace n}
      (h : (group.publicKey key).Ends ws (.ok p) ws') : group.Makes p
  | mulBase {k : FixedNat n} {p : JacobianPoint n} {ws ws' : Workspace n}
      (h : (group.mulBase k).Ends ws (.ok p) ws') : group.Makes p
  | mulPoint {k : FixedNat n} {p q : JacobianPoint n} {ws ws' : Workspace n} (hq : group.Makes q)
      (h : (group.mulPoint k q).Ends ws (.ok p) ws') : group.Makes p
  | mulBaseAndPoint {d c : FixedNat n} {p q : JacobianPoint n} {ws ws' : Workspace n}
      (hq : group.Makes q) (h : (group.mulBaseAndPoint d c q).Ends ws (.ok p) ws') : group.Makes p
  | mulWindows {p : JacobianPoint n} (hp : group.Makes p) (k : FixedNat n) (bits : Nat)
      (table : WindowTable n) : group.Makes (group.curve.mulPoint k p bits table).1
  | mulTwoWindows {p q : JacobianPoint n} (hp : group.Makes p) (hq : group.Makes q)
      (a b : FixedNat n) (bits : Nat) (tableP tableQ : WindowTable n) :
      group.Makes (group.curve.mulTwoPoints a p b q bits tableP tableQ).1
  | add {p q : JacobianPoint n} (hp : group.Makes p) (hq : group.Makes q) :
      group.Makes (group.curve.add p q)
  | double {p : JacobianPoint n} (hp : group.Makes p) : group.Makes (group.curve.double p)
  | negate {p : JacobianPoint n} (hp : group.Makes p) : group.Makes (group.curve.negate p)

/-- A point on the curve of a group, with the element length of the group. -/
structure HasPoint (group : CurveGroup n) (p : JacobianPoint n) : Prop where
  onCurve : group.curve.OnCurve p
  elementLength_eq : p.elementLength = group.elementLength

/-- A point that is taken in has the coordinates that were encoded, and it passes the check. -/
theorem ofAffine_eq_ok {xs ys : List (FixedNat n)} (h : group.ofAffine xs ys = .ok p) :
    ∃ x y, group.field.encode? xs = some x ∧ group.field.encode? ys = some y ∧
      p = group.curve.ofAffine x y ∧ group.curve.contains (group.curve.ofAffine x y) = true := by
  rw [ofAffine] at h
  split at h
  · rename_i x y hx hy
    dsimp only at h
    split at h <;> rename_i hContains
    · exact ⟨x, y, hx, hy, (Except.ok.inj h).symm, hContains⟩
    · cases h
  · cases h

/-- The coordinates of a point that was made of encoded lists are decoded as these lists. -/
theorem toAffine?_ofAffine (hf : group.field.IsBuilt) {xs ys : List (FixedNat n)}
    {x y : FieldElement n} (hx : group.field.encode? xs = some x)
    (hy : group.field.encode? ys = some y) :
    group.toAffine? (group.curve.ofAffine x y) = some (xs, ys) := by
  have hAffine : group.curve.affine? (group.curve.ofAffine x y) = some (x, y) :=
    affine?_ofAffine (CoordinateField.remainderRing hf) (CoordinateField.isElement_of_encode?_eq hx)
      (CoordinateField.isElement_of_encode?_eq hy)
  rw [toAffine?, hAffine, ← CoordinateField.decode_of_encode?_eq hf hx,
    ← CoordinateField.decode_of_encode?_eq hf hy]
  rfl

/-- The canonical coordinates of a finite point are taken in again, as the same point. -/
theorem HasPoint.exists_ofAffine {L : Type} [Field L] (r : Realization group.curve.field L)
    (hCurve : group.curve.IsAccepted) (hp : group.HasPoint p) (hFinite : p.isInfinity = false) :
    ∃ xs ys q, group.toAffine? p = some (xs, ys) ∧ group.ofAffine xs ys = .ok q ∧
      group.HasPoint q ∧ group.curve.samePoint q p = true := by
  obtain ⟨x, y, hAffine, hq⟩ := hp.onCurve.exists_affine? r hCurve hFinite
  have hx : group.field.encode? (group.field.decode x) = some x :=
    CoordinateField.encode?_decode r.isBuilt hq.isElement_x
  have hy : group.field.encode? (group.field.decode y) = some y :=
    CoordinateField.encode?_decode r.isBuilt hq.isElement_y
  refine ⟨group.field.decode x, group.field.decode y, group.curve.ofAffine x y,
    by rw [toAffine?, hAffine]; rfl, ?_, ⟨hq, rfl⟩, ?_⟩
  · rw [ofAffine, hx, hy]
    exact if_pos hq.contains_eq
  · have hSame : group.curve.affine? (group.curve.ofAffine x y) = some (x, y) :=
      affine?_ofAffine r.toRingRealization hq.isElement_x hq.isElement_y
    rw [samePoint, hAffine, hSame]
    exact decide_eq_true rfl

theorem eq_multiple_of_ends {k : FixedNat n} {q : JacobianPoint n} {ws ws' : Workspace n}
    (h : (group.mulPoint k q).Ends ws (.ok p) ws') : p = group.multiple k q := by
  by_cases hTables : 1 ≤ ws.scratch.capacity
  · exact Except.ok.inj (h.unique (ends_mulPoint ws k q hTables))
  · cases h.unique (ends_mulPoint_of_few ws k q (Nat.lt_of_not_le hTables))

theorem eq_combination_of_ends {d c : FixedNat n} {q : JacobianPoint n} {ws ws' : Workspace n}
    (h : (group.mulBaseAndPoint d c q).Ends ws (.ok p) ws') : p = group.combination d c q := by
  by_cases hTables : 2 ≤ ws.scratch.capacity
  · exact Except.ok.inj (h.unique (ends_mulBaseAndPoint ws d c q hTables))
  · cases h.unique (ends_mulBaseAndPoint_of_few ws d c q (Nat.lt_of_not_le hTables))

/-- A public key is a multiple of the base point. -/
theorem exists_eq_multiple_of_ends_publicKey {key : BufferedInt} {ws ws' : Workspace n}
    (h : (group.publicKey key).Ends ws (.ok p) ws') :
    ∃ k, p = group.multiple k group.generator := by
  rw [publicKey] at h
  cases hKey : group.privateScalar key with
  | error failure =>
      rw [hKey] at h
      cases h.unique (Call.ends_ofExcept_error failure).bind_error
  | ok k =>
      rw [hKey] at h
      exact ⟨k, eq_multiple_of_ends h⟩

namespace OverGaloisField

variable (h : group.OverGaloisField)

include h

theorem isBuilt : group.curve.field.IsBuilt :=
  h.overGaloisField.isGaloisField.isConstructed.isBuilt

theorem hasPoint_ofHolds {P : h.overGaloisField.Point}
    (hp : Holds h.overGaloisField.isGaloisField.realization p P) : group.HasPoint p :=
  ⟨hp.represents.onCurve, hp.elementLength_eq⟩

theorem hasPoint_generator : group.HasPoint group.generator := by
  obtain ⟨x, y, order, hx, hy, hGroup⟩ := h.ofBasePoint_eq
  obtain ⟨-, -, hGenerator, -⟩ := ofBasePoint_eq_ok hGroup
  refine ⟨onCurve_of_ofBasePoint_eq h.isBuilt hx hy hGroup, ?_⟩
  rw [hGenerator]
  rfl

theorem hasPoint_ofAffine {xs ys : List (FixedNat n)} (hPoint : group.ofAffine xs ys = .ok p) :
    group.HasPoint p := by
  obtain ⟨x, y, hx, hy, rfl, hContains⟩ := ofAffine_eq_ok hPoint
  exact ⟨⟨CoordinateField.isElement_of_encode?_eq hx, CoordinateField.isElement_of_encode?_eq hy,
    CoordinateField.isElement_one h.isBuilt, hContains⟩, rfl⟩

theorem hasPoint_mulWindows (hp : group.HasPoint p) (k : FixedNat n) (bits : Nat)
    (table : WindowTable n) : group.HasPoint (group.curve.mulPoint k p bits table).1 :=
  h.hasPoint_ofHolds (holds_mulPoint h.overGaloisField.isAccepted
    (h.overGaloisField.represents hp.onCurve) k bits table)

theorem hasPoint_mulTwoWindows {q : JacobianPoint n} (hp : group.HasPoint p)
    (hq : group.HasPoint q) (a b : FixedNat n) (bits : Nat) (tableP tableQ : WindowTable n) :
    group.HasPoint (group.curve.mulTwoPoints a p b q bits tableP tableQ).1 :=
  h.hasPoint_ofHolds (holds_mulTwoPoints h.overGaloisField.isAccepted
    (h.overGaloisField.represents hp.onCurve) (h.overGaloisField.represents hq.onCurve) a b bits
    tableP tableQ)

/-- Every operation makes points of the group from points of the group. -/
theorem hasPoint (hp : group.Makes p) : group.HasPoint p := by
  induction hp with
  | generator => exact h.hasPoint_generator
  | identity => exact ⟨group.curve.onCurve_identity, rfl⟩
  | ofAffine hPoint => exact h.hasPoint_ofAffine hPoint
  | publicKey hEnds =>
      obtain ⟨k, rfl⟩ := exists_eq_multiple_of_ends_publicKey hEnds
      exact h.hasPoint_mulWindows h.hasPoint_generator k _ _
  | mulBase hEnds =>
      obtain rfl := eq_multiple_of_ends hEnds
      exact h.hasPoint_mulWindows h.hasPoint_generator _ _ _
  | mulPoint _ hEnds hq =>
      obtain rfl := eq_multiple_of_ends hEnds
      exact h.hasPoint_mulWindows hq _ _ _
  | mulBaseAndPoint _ hEnds hq =>
      obtain rfl := eq_combination_of_ends hEnds
      exact h.hasPoint_mulTwoWindows h.hasPoint_generator hq _ _ _ _ _
  | mulWindows _ k bits table hp => exact h.hasPoint_mulWindows hp k bits table
  | mulTwoWindows _ _ a b bits tableP tableQ hp hq =>
      exact h.hasPoint_mulTwoWindows hp hq a b bits tableP tableQ
  | add _ _ hp hq =>
      exact ⟨h.overGaloisField.onCurve_add hp.onCurve hq.onCurve,
        elementLength_add hp.elementLength_eq hq.elementLength_eq⟩
  | double _ hp =>
      exact ⟨h.overGaloisField.onCurve_double hp.onCurve, elementLength_double hp.elementLength_eq⟩
  | negate _ hp => exact ⟨h.overGaloisField.onCurve_negate hp.onCurve, hp.elementLength_eq⟩

end OverGaloisField

end CurveGroup

end NybergRueppel
