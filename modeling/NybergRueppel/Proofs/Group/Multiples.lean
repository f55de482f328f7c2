import NybergRueppel.Group.Multiples
import NybergRueppel.Proofs.BufferedInt.Normal
import NybergRueppel.Proofs.Curve.ScalarMul
import NybergRueppel.Proofs.Field.Prime
import NybergRueppel.Proofs.GroupOrder
import NybergRueppel.Proofs.Workspace

/-!
Multiples in a group. A call that multiplies leaves the pool alone and wipes the window tables, and
its product does not depend on what they held. Over a prime field the windows cover every scalar
below the order, so that the products are the multiples in the group of the curve.
-/
namespace NybergRueppel

/-- Only the number of the tables matters once they are wiped. -/
theorem Scratch.wipe_eq_of_capacity_eq {n : Nat} {s s' : Scratch n}
    (h : s.capacity = s'.capacity) : s.wipe = s'.wipe := by
  rw [wipe, wipe, List.map_const', List.map_const']
  exact congrArg (fun count => (⟨List.replicate count WindowTable.blank⟩ : Scratch n)) h

namespace CurveGroup

open Curve

variable {n : Nat} {group : CurveGroup n}

/-- The product that scalar multiplication computes. -/
def multiple (group : CurveGroup n) (k : FixedNat n) (p : JacobianPoint n) : JacobianPoint n :=
  (group.curve.mulPoint k p group.order.bits .blank).1

/-- The sum `d * G + c * q` that is computed with two tables at once. -/
def combination (group : CurveGroup n) (d c : FixedNat n) (q : JacobianPoint n) :
    JacobianPoint n :=
  (group.curve.mulTwoPoints d group.generator c q group.order.bits .blank .blank).1

theorem ends_mulPoint (ws : Workspace n) (k : FixedNat n) (p : JacobianPoint n)
    (hTables : 1 ≤ ws.scratch.capacity) :
    (group.mulPoint k p).Ends ws (.ok (group.multiple k p))
      { ws with scratch := ws.scratch.wipe } := by
  obtain ⟨pool, ⟨tables⟩⟩ := ws
  cases tables with
  | nil => exact absurd hTables (Nat.not_succ_le_zero 0)
  | cons table rest =>
      have hWipe : Scratch.wipe { tables := table :: rest } = Scratch.wipe
          { tables := (group.curve.mulPoint k p group.order.bits table).2 :: rest } :=
        Scratch.wipe_eq_of_capacity_eq (by simp only [Scratch.capacity, List.length_cons])
      rw [mulPoint, hWipe, multiple, mulPoint_fst_eq group.curve k p group.order.bits .blank table]
      exact (Call.ends_get _).bind (Call.ends_set.bind (Call.ends_pure _))

/-- Without a window table nothing is multiplied. -/
theorem ends_mulPoint_of_few (ws : Workspace n) (k : FixedNat n) (p : JacobianPoint n)
    (hFew : ws.scratch.capacity < 1) :
    (group.mulPoint k p).Ends ws (.error (.failure .bufferTooSmall)) ws := by
  obtain ⟨pool, ⟨tables⟩⟩ := ws
  obtain rfl : tables = [] := List.eq_nil_of_length_eq_zero (Nat.lt_one_iff.mp hFew)
  rw [mulPoint]
  exact (Call.ends_get _).bind (Call.ends_fail _)

theorem ends_mulBaseAndPoint (ws : Workspace n) (d c : FixedNat n) (q : JacobianPoint n)
    (hTables : 2 ≤ ws.scratch.capacity) :
    (group.mulBaseAndPoint d c q).Ends ws (.ok (group.combination d c q))
      { ws with scratch := ws.scratch.wipe } := by
  obtain ⟨pool, ⟨tables⟩⟩ := ws
  match tables, hTables with
  | first :: second :: rest, _ =>
      let computed := group.curve.mulTwoPoints d group.generator c q group.order.bits first second
      have hWipe : Scratch.wipe { tables := first :: second :: rest } = Scratch.wipe
          { tables := computed.2.1 :: computed.2.2 :: rest } :=
        Scratch.wipe_eq_of_capacity_eq (by simp only [Scratch.capacity, List.length_cons])
      rw [mulBaseAndPoint, hWipe, combination, mulTwoPoints_fst_eq group.curve d group.generator c q
        group.order.bits .blank .blank first second]
      exact (Call.ends_get _).bind (Call.ends_set.bind (Call.ends_pure _))

/-- With one window table or none the sum is not computed. -/
theorem ends_mulBaseAndPoint_of_few (ws : Workspace n) (d c : FixedNat n) (q : JacobianPoint n)
    (hFew : ws.scratch.capacity < 2) :
    (group.mulBaseAndPoint d c q).Ends ws (.error (.failure .bufferTooSmall)) ws := by
  obtain ⟨pool, ⟨tables⟩⟩ := ws
  rw [mulBaseAndPoint]
  apply (Call.ends_get _).bind
  match tables, hFew with
  | [], _ => exact Call.ends_fail _
  | [_], _ => exact Call.ends_fail _

/-- The curve is one over a prime field that its constructor takes, and the group comes from a base
point and an order. -/
structure OverPrimeField (group : CurveGroup n) : Prop where
  isPrimeField : group.curve.field.IsPrimeField
  isAccepted : group.curve.IsAccepted
  ofBasePoint_eq : ∃ x y order, group.curve.field.IsElement x ∧ group.curve.field.IsElement y ∧
    ofBasePoint group.name group.curve x y order = .ok group

/-- What the constructor returns has the parts that it was given, and its base point passes the
check of the curve. -/
theorem ofBasePoint_eq_ok {name : String} {curve : Curve n} {x y : FieldElement n}
    {order : FixedNat n} (h : ofBasePoint name curve x y order = .ok group) :
    group.name = name ∧ group.curve = curve ∧ group.generator = curve.ofAffine x y ∧
      group.order.modulus = order ∧ curve.contains (curve.ofAffine x y) = true := by
  rw [ofBasePoint, GroupOrder.ofNumber] at h
  split at h <;> rename_i hContains
  · cases hMont : Montgomery.ofModulus? order with
    | none =>
        rw [hMont] at h
        cases h
    | some mont =>
        rw [hMont] at h
        have hGroup := Except.ok.inj h
        rw [← hGroup]
        exact ⟨rfl, rfl, rfl, Montgomery.ofModulus?_eq_some hMont, hContains⟩
  · cases h

/-- The base point lies on the curve. -/
theorem onCurve_of_ofBasePoint_eq (hf : group.curve.field.IsBuilt) {x y : FieldElement n}
    {order : FixedNat n} (hx : group.curve.field.IsElement x) (hy : group.curve.field.IsElement y)
    (h : ofBasePoint group.name group.curve x y order = .ok group) :
    group.curve.OnCurve group.generator := by
  obtain ⟨-, -, hGenerator, -, hContains⟩ := ofBasePoint_eq_ok h
  rw [hGenerator]
  exact ⟨hx, hy, CoordinateField.isElement_one hf, hContains⟩

theorem overPrimeField_of_ofBasePoint {name : String} {curve : Curve n} {x y : FieldElement n}
    {order : FixedNat n} (hField : curve.field.IsPrimeField) (hCurve : curve.IsAccepted)
    (hx : curve.field.IsElement x) (hy : curve.field.IsElement y)
    (h : ofBasePoint name curve x y order = .ok group) : group.OverPrimeField := by
  obtain ⟨rfl, rfl, -, -, -⟩ := ofBasePoint_eq_ok h
  exact ⟨hField, hCurve, x, y, order, hx, hy, h⟩

/-- A number strictly between zero and the order is a scalar. -/
theorem scalar?_eq_some {v : BufferedInt} (hPos : 0 < v.toInt)
    (hLess : v.toInt < group.order.modulus.toNat) :
    ∃ k, group.scalar? v = some k ∧ (k.toNat : Int) = v.toInt := by
  have hPlus := BufferedInt.isNegative_eq_false_of_pos hPos
  have hMagnitude := BufferedInt.toInt_eq_magnitude hPlus
  have hZero : v.isZero = false := BufferedInt.isZero_eq_false_of_pos (by omega)
  have hCompare : v.compareMagnitude group.order.modulus = .lt := by
    rw [BufferedInt.compareMagnitude_eq_lt_iff]
    omega
  have hWidth := group.order.modulus.toNat_lt
  obtain ⟨k, hFixed, hValue⟩ := BufferedInt.exists_toFixed? (n := n) (a := v) (by omega)
  rw [scalar?, hPlus, hZero, Bool.or_self, if_neg Bool.false_ne_true, if_pos hCompare]
  exact ⟨k, hFixed, by omega⟩

/-- A scalar is the number that it is read from. -/
theorem of_scalar?_eq_some {v : BufferedInt} {k : FixedNat n} (h : group.scalar? v = some k) :
    (k.toNat : Int) = v.toInt ∧ k.toNat < group.order.modulus.toNat := by
  rw [scalar?] at h
  split at h <;> rename_i hSign
  · cases h
  · rw [Bool.or_eq_true, not_or, Bool.not_eq_true] at hSign
    split at h <;> rename_i hCompare
    · rw [BufferedInt.compareMagnitude_eq_lt_iff] at hCompare
      rw [BufferedInt.toFixed?_eq_some_iff] at h
      rw [BufferedInt.toInt_eq_magnitude hSign.1]
      omega
    · cases h

/-- No other number is one. -/
theorem scalar?_eq_none {v : BufferedInt} (hNormal : v.IsNormal)
    (hOutside : ¬(0 < v.toInt ∧ v.toInt < group.order.modulus.toNat)) :
    group.scalar? v = none := by
  rw [scalar?]
  split <;> rename_i hSign
  · rfl
  · rw [Bool.or_eq_true, not_or, Bool.not_eq_true, BufferedInt.isZero_iff hNormal.size_eq] at hSign
    have hMagnitude := BufferedInt.toInt_eq_magnitude hSign.1
    have hCompare : v.compareMagnitude group.order.modulus ≠ .lt := by
      rw [ne_eq, BufferedInt.compareMagnitude_eq_lt_iff]
      omega
    rw [if_neg hCompare]

theorem exists_privateScalar {v : BufferedInt} (hPos : 0 < v.toInt)
    (hLess : v.toInt < group.order.modulus.toNat) :
    ∃ k, group.privateScalar v = .ok k ∧ (k.toNat : Int) = v.toInt := by
  obtain ⟨k, hScalar, hk⟩ := scalar?_eq_some hPos hLess
  exact ⟨k, by rw [privateScalar, hScalar], hk⟩

theorem exists_messageScalar {v : BufferedInt} (hPos : 0 < v.toInt)
    (hLess : v.toInt < group.order.modulus.toNat) :
    ∃ k, group.messageScalar v = .ok k ∧ (k.toNat : Int) = v.toInt := by
  obtain ⟨k, hScalar, hk⟩ := scalar?_eq_some hPos hLess
  exact ⟨k, by rw [messageScalar, hScalar], hk⟩

namespace OverPrimeField

variable (h : group.OverPrimeField)

/-- The points of the Weierstrass curve over the residues modulo the prime. -/
abbrev Point : Type :=
  (group.curve.weierstrass h.isPrimeField.realization).Point

/-- The affine point of Jacobian coordinates. -/
noncomputable def point (p : JacobianPoint n) : h.Point :=
  group.curve.point h.isPrimeField.realization p

/-- The least number of the `x` coordinate, and zero for the point at infinity. -/
def xNumber : h.Point → Nat
  | .zero => 0
  | .some x _ _ => h.isPrimeField.toNat x

/-- The point of the group that the Jacobian coordinates stand for, with the element length of the
group. -/
abbrev Holds (p : JacobianPoint n) (P : h.Point) : Prop :=
  Curve.Holds h.isPrimeField.realization p P

include h in
theorem not_isExtension : group.isExtension = false := by
  have hDegree : group.field.degree = 1 := h.isPrimeField.degree_eq_one
  rw [isExtension, CoordinateField.isExtension, hDegree]
  rfl

include h in
theorem onCurve_generator : group.curve.OnCurve group.generator := by
  obtain ⟨x, y, order, hx, hy, hGroup⟩ := h.ofBasePoint_eq
  exact onCurve_of_ofBasePoint_eq h.isPrimeField.isBuilt hx hy hGroup

/-- The base point. -/
noncomputable def basePoint : h.Point :=
  h.point group.generator

theorem represents {p : JacobianPoint n} (hp : group.curve.OnCurve p) :
    Represents h.isPrimeField.realization p (h.point p) :=
  hp.represents _

/-- The windows cover every scalar below the order. -/
theorem mod_windows {k : Nat} (hk : k < group.order.modulus.toNat) :
    k % 2 ^ (4 * ((group.order.bits + 3) / 4)) = k := by
  apply Nat.mod_eq_of_lt
  calc
    k < group.order.modulus.toNat := hk
    _ < 2 ^ group.order.bits := group.order.modulus_lt
    _ ≤ 2 ^ (4 * ((group.order.bits + 3) / 4)) := Nat.pow_le_pow_right (by decide) (by omega)

variable (ws : Workspace n)

theorem holds_multiple {k : FixedNat n} (hk : k.toNat < group.order.modulus.toNat)
    {p : JacobianPoint n} (hp : group.curve.OnCurve p) :
    h.Holds (group.multiple k p) (k.toNat • h.point p) := by
  have hProduct := holds_mulPoint h.isAccepted (h.represents hp) k group.order.bits .blank
  rwa [mod_windows hk] at hProduct

theorem holds_combination {d c : FixedNat n} (hd : d.toNat < group.order.modulus.toNat)
    (hc : c.toNat < group.order.modulus.toNat) {q : JacobianPoint n}
    (hq : group.curve.OnCurve q) :
    h.Holds (group.combination d c q) (d.toNat • h.basePoint + c.toNat • h.point q) := by
  have hSum := holds_mulTwoPoints h.isAccepted (h.represents h.onCurve_generator)
    (h.represents hq) d c group.order.bits .blank .blank
  rwa [mod_windows hd, mod_windows hc] at hSum

/-- The public key of a private key is its multiple of the base point. -/
theorem ends_publicKey {key : BufferedInt} (hPos : 0 < key.toInt)
    (hLess : key.toInt < group.order.modulus.toNat) (hTables : 1 ≤ ws.scratch.capacity) :
    ∃ product, h.Holds product (key.toInt.toNat • h.basePoint) ∧
      (group.publicKey key).Ends ws (.ok product) { ws with scratch := ws.scratch.wipe } := by
  obtain ⟨k, hKey, hk⟩ := exists_privateScalar hPos hLess
  refine ⟨group.multiple k group.generator, ?_, ?_⟩
  · rw [← hk, Int.toNat_natCast]
    exact h.holds_multiple (by omega) h.onCurve_generator
  · rw [publicKey, hKey]
    exact (Call.ends_ofExcept_ok k).bind (ends_mulPoint ws k group.generator hTables)

/-- The number that signing and verification take from a point: its `x` coordinate as a number,
unless the point is at infinity. -/
theorem affine?_eq {p : JacobianPoint n} {P : h.Point} (hp : h.Holds p P) :
    (P = 0 ∧ group.curve.affine? p = none) ∨
      (P ≠ 0 ∧ ∃ x y, group.curve.affine? p = some (x, y) ∧
        (group.field.decodeBase x).toNat = h.xNumber P) := by
  obtain ⟨⟨hOn, rfl⟩, -⟩ := hp
  cases hPoint : group.curve.point h.isPrimeField.realization p with
  | zero => exact .inl ⟨rfl, (affine?_eq_none_iff _ h.isAccepted hOn).mpr hPoint⟩
  | some x y hNonsingular =>
      obtain ⟨ax, ay, hAffine, hx, -⟩ := affine?_of_point_eq_some _ h.isAccepted hOn hPoint
      exact .inr ⟨WeierstrassCurve.Affine.Point.some_ne_zero _, ax, ay, hAffine,
        h.isPrimeField.toNat_decodeBase hx⟩

end OverPrimeField

end CurveGroup

end NybergRueppel
