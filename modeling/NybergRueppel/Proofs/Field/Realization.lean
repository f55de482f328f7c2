import Mathlib.FieldTheory.Finite.Basic
import NybergRueppel.Proofs.Field.RingRealization

/-!
The meaning of the operations in a field of the size of a coordinate field. There the power by the
exponent of inversion means the inverse, and an element is zero exactly if its value is.
-/
namespace NybergRueppel

open Finset

/-- A field of the size of a coordinate field with a root of its defining polynomial, whose lower
powers are linearly independent over the residues. -/
structure Realization {n : Nat} (f : CoordinateField n) (L : Type) [Field L] where
  scalar : f.Residue →+* L
  root : L
  isBuilt : f.IsBuilt
  root_pow_degree :
    root ^ f.degree =
      -∑ i ∈ range f.degree, scalar (f.mont.residue (f.polynomial.coeff i)) * root ^ i
  eq_zero_of_sum_eq_zero : ∀ c : Nat → f.Residue,
    ∑ i ∈ range f.degree, scalar (c i) * root ^ i = 0 → ∀ i < f.degree, c i = 0
  card_eq : Nat.card L = f.modulus.toNat ^ f.degree

namespace Realization

variable {n : Nat} {f : CoordinateField n} {L : Type} [Field L] (r : Realization f L)

/-- The number of the field that an element stands for. -/
def value (a : FieldElement n) : L :=
  ∑ i ∈ range f.degree, r.scalar (f.mont.residue (a.coeff i)) * r.root ^ i

variable {a b : FieldElement n}

/-- The field as a ring, where the operations without inverses have their meaning. -/
def toRingRealization : RingRealization f L where
  scalar := r.scalar
  root := r.root
  isBuilt := r.isBuilt
  root_pow_degree := r.root_pow_degree
  eq_zero_of_sum_eq_zero := r.eq_zero_of_sum_eq_zero

theorem eq_of_value_eq (ha : f.IsElement a) (hb : f.IsElement b) (h : r.value a = r.value b) :
    a = b :=
  r.toRingRealization.eq_of_value_eq ha hb h

theorem value_inj (ha : f.IsElement a) (hb : f.IsElement b) : r.value a = r.value b ↔ a = b :=
  ⟨r.eq_of_value_eq ha hb, congrArg r.value⟩

@[simp]
theorem value_zero : r.value 0 = 0 :=
  r.toRingRealization.value_zero

theorem value_eq_zero_iff (ha : f.IsElement a) : r.value a = 0 ↔ a = 0 := by
  rw [← r.value_zero, r.value_inj ha CoordinateField.isElement_zero]

protected theorem isZero_iff (ha : f.IsElement a) : a.isZero = true ↔ r.value a = 0 := by
  rw [FieldElement.isZero_iff, r.value_eq_zero_iff ha]

@[simp]
theorem value_one : r.value f.one = 1 :=
  r.toRingRealization.value_one

theorem value_mul (ha : f.IsElement a) (b : FieldElement n) :
    r.value (f.mul a b) = r.value a * r.value b :=
  r.toRingRealization.value_mul ha b

theorem value_pow (ha : f.IsElement a) (exponent : List UInt64) :
    r.value (f.pow a exponent) = r.value a ^ Limbs.toNat exponent :=
  r.toRingRealization.value_pow ha exponent

include r in
theorem pow_card_sub_one {x : L} (hx : x ≠ 0) : x ^ (f.modulus.toNat ^ f.degree - 1) = 1 := by
  have hFinite : Finite L := by
    apply Nat.finite_of_card_ne_zero
    rw [r.card_eq]
    exact pow_ne_zero _ (NeZero.ne f.mont.modulus.toNat)
  have hUnit : Units.mk0 x hx ^ Nat.card Lˣ = 1 := pow_card_eq_one'
  rw [Nat.card_units, r.card_eq] at hUnit
  exact congrArg Units.val hUnit

/-- By Fermat's little theorem the power is the inverse; the power of zero is zero. -/
theorem value_inverse (ha : f.IsElement a) : r.value (f.inverse a) = (r.value a)⁻¹ := by
  have hExponent := r.isBuilt.toNat_inverseExponent
  have hModulus : 3 ≤ f.modulus.toNat := f.mont.three_le_modulus
  have hCard : f.modulus.toNat ≤ f.modulus.toNat ^ f.degree :=
    Nat.le_self_pow (Nat.ne_of_gt r.isBuilt.one_le_degree) _
  rw [CoordinateField.inverse, r.value_pow ha]
  by_cases hZero : r.value a = 0
  · rw [hZero, inv_zero, zero_pow (by omega)]
  · apply eq_inv_of_mul_eq_one_left
    rw [← pow_succ, ← r.pow_card_sub_one hZero]
    congr 1
    omega

/-- An element of the field that stands for the number `v`. -/
structure Represents (a : FieldElement n) (v : L) : Prop where
  isElement : f.IsElement a
  value_eq : r.value a = v

namespace Represents

variable {r} {v w : L}

theorem toRing (ha : r.Represents a v) : r.toRingRealization.Represents a v :=
  ⟨ha.isElement, ha.value_eq⟩

theorem ofRing (ha : r.toRingRealization.Represents a v) : r.Represents a v :=
  ⟨ha.isElement, ha.value_eq⟩

theorem add (ha : r.Represents a v) (hb : r.Represents b w) : r.Represents (f.add a b) (v + w) :=
  ofRing (ha.toRing.add hb.toRing)

theorem sub (ha : r.Represents a v) (hb : r.Represents b w) : r.Represents (f.sub a b) (v - w) :=
  ofRing (ha.toRing.sub hb.toRing)

theorem neg (ha : r.Represents a v) : r.Represents (f.neg a) (-v) :=
  ofRing ha.toRing.neg

theorem double (ha : r.Represents a v) : r.Represents (f.double a) (2 * v) :=
  ofRing ha.toRing.double

theorem mul (ha : r.Represents a v) (hb : r.Represents b w) : r.Represents (f.mul a b) (v * w) :=
  ofRing (ha.toRing.mul hb.toRing)

theorem sqr (ha : r.Represents a v) : r.Represents (f.sqr a) (v ^ 2) :=
  ofRing ha.toRing.sqr

theorem inverse (ha : r.Represents a v) : r.Represents (f.inverse a) v⁻¹ :=
  ⟨CoordinateField.isElement_inverse r.isBuilt ha.isElement, by
    rw [r.value_inverse ha.isElement, ha.value_eq]⟩

theorem of_eq (ha : r.Represents a v) (h : v = w) : r.Represents a w :=
  h ▸ ha

theorem isZero_iff (ha : r.Represents a v) : a.isZero = true ↔ v = 0 :=
  ha.toRing.isZero_iff

theorem eq_iff (ha : r.Represents a v) (hb : r.Represents b w) : a = b ↔ v = w :=
  ha.toRing.eq_iff hb.toRing

end Represents

theorem represents_value (ha : f.IsElement a) : r.Represents a (r.value a) :=
  ⟨ha, rfl⟩

end Realization

end NybergRueppel
