import Mathlib.Algebra.BigOperators.Ring.Finset
import Mathlib.Tactic.LinearCombination
import NybergRueppel.Proofs.Field.Element

/-!
The meaning of the operations on coefficients. In a ring that is generated over the residues by a
root of the defining polynomial, an element means the value of its coefficients at that root. The
sums, differences and products of elements represent those of the ring; nothing is assumed about the
modulus or the polynomial.
-/
namespace NybergRueppel

open Finset

/-- The residues modulo the prime, which the coefficients stand for. -/
abbrev CoordinateField.Residue {n : Nat} (f : CoordinateField n) : Type :=
  ZMod f.mont.modulus.toNat

/-- A ring with a root of the defining polynomial of a coordinate field, whose lower powers are
linearly independent over the residues. -/
structure RingRealization {n : Nat} (f : CoordinateField n) (R : Type) [CommRing R] where
  scalar : f.Residue →+* R
  root : R
  isBuilt : f.IsBuilt
  root_pow_degree :
    root ^ f.degree =
      -∑ i ∈ range f.degree, scalar (f.mont.residue (f.polynomial.coeff i)) * root ^ i
  eq_zero_of_sum_eq_zero : ∀ c : Nat → f.Residue,
    ∑ i ∈ range f.degree, scalar (c i) * root ^ i = 0 → ∀ i < f.degree, c i = 0

namespace RingRealization

variable {n : Nat} {f : CoordinateField n} {R : Type} [CommRing R] (r : RingRealization f R)

/-- The number of the ring that an element stands for. -/
def value (a : FieldElement n) : R :=
  ∑ i ∈ range f.degree, r.scalar (f.mont.residue (a.coeff i)) * r.root ^ i

variable {a b : FieldElement n}

theorem eq_of_value_eq (ha : f.IsElement a) (hb : f.IsElement b) (h : r.value a = r.value b) :
    a = b := by
  have hDifference : ∑ i ∈ range f.degree,
      r.scalar (f.mont.residue (a.coeff i) - f.mont.residue (b.coeff i)) * r.root ^ i = 0 := by
    simp only [map_sub, sub_mul, sum_sub_distrib]
    exact sub_eq_zero.mpr h
  have hCoeff := r.eq_zero_of_sum_eq_zero _ hDifference
  apply FieldElement.eq_of_coeff_eq
  intro i
  by_cases hi : i < f.degree
  · exact f.mont.eq_of_residue_eq (ha.coeff_lt i) (hb.coeff_lt i) (sub_eq_zero.mp (hCoeff i hi))
  · rw [ha.coeff_eq_zero i (by omega), hb.coeff_eq_zero i (by omega)]

/-- The value of an element that is given by its coefficients. -/
theorem value_ofCoeffs (c : Nat → FixedNat n) :
    r.value (.ofCoeffs f.degree c) =
      ∑ i ∈ range f.degree, r.scalar (f.mont.residue (c i)) * r.root ^ i := by
  apply sum_congr rfl
  intro i hi
  rw [CoordinateField.coeff_ofCoeffs r.isBuilt c (mem_range.mp hi)]

@[simp]
theorem value_zero : r.value 0 = 0 := by
  simp [value]

theorem value_ofBase (c : FixedNat n) : r.value (.ofBase c) = r.scalar (f.mont.residue c) := by
  have hZero : 0 ∈ range f.degree := mem_range.mpr r.isBuilt.one_le_degree
  rw [value, sum_eq_single_of_mem 0 hZero]
  · rw [FieldElement.coeff_ofBase, if_pos rfl, pow_zero, mul_one]
  · intro i _ hi
    rw [FieldElement.coeff_ofBase, if_neg hi, Montgomery.residue_zero, map_zero, zero_mul]

@[simp]
theorem value_one : r.value f.one = 1 := by
  rw [CoordinateField.one, value_ofBase, Montgomery.residue_one, map_one]

theorem value_ofWord (w : UInt64) : r.value (f.ofWord w) = w.toNat := by
  rw [CoordinateField.ofWord, value_ofBase, Montgomery.residue_encode,
    FixedNat.toNat_ofWord f.mont.limbs_pos, map_natCast]

theorem value_add (ha : f.IsElement a) (hb : f.IsElement b) :
    r.value (f.add a b) = r.value a + r.value b := by
  rw [CoordinateField.add, value_ofCoeffs, value, value, ← sum_add_distrib]
  apply sum_congr rfl
  intro i _
  rw [CoordinateField.modulus, f.mont.residue_addMod (ha.coeff_lt i) (hb.coeff_lt i), map_add,
    add_mul]

theorem value_sub (ha : f.IsElement a) (hb : f.IsElement b) :
    r.value (f.sub a b) = r.value a - r.value b := by
  rw [CoordinateField.sub, value_ofCoeffs, value, value, ← sum_sub_distrib]
  apply sum_congr rfl
  intro i _
  rw [CoordinateField.modulus, f.mont.residue_subMod (ha.coeff_lt i) (hb.coeff_lt i), map_sub,
    sub_mul]

theorem value_neg (ha : f.IsElement a) : r.value (f.neg a) = -r.value a := by
  rw [CoordinateField.neg, r.value_sub CoordinateField.isElement_zero ha, value_zero, zero_sub]

theorem value_double (ha : f.IsElement a) : r.value (f.double a) = 2 * r.value a := by
  rw [CoordinateField.double, r.value_add ha ha, two_mul]

/-- The value at the root of a polynomial with room for a product. -/
def polynomialValue (cs : List (FixedNat n)) : R :=
  ∑ i ∈ range (2 * maxExtensionDegree - 1), r.scalar (f.mont.residue (cs.getD i 0)) * r.root ^ i

/-- A loop over a range whose steps add to the value of a polynomial. -/
theorem polynomialValue_foldl_range {P : List (FixedNat n) → Prop}
    {step : List (FixedNat n) → Nat → List (FixedNat n)} {t : Nat → R} {count : Nat}
    (hStep : ∀ cs i, i < count → P cs →
      P (step cs i) ∧ r.polynomialValue (step cs i) = r.polynomialValue cs + t i)
    {cs : List (FixedNat n)} (hcs : P cs) :
    r.polynomialValue ((List.range count).foldl step cs) =
      r.polynomialValue cs + ∑ i ∈ range count, t i := by
  have hRun : ∀ k ≤ count, P ((List.range k).foldl step cs) ∧
      r.polynomialValue ((List.range k).foldl step cs) =
        r.polynomialValue cs + ∑ i ∈ range k, t i := by
    intro k
    induction k with
    | zero => exact fun _ => ⟨hcs, by simp⟩
    | succ k ih =>
        intro hk
        obtain ⟨hClosed, hValue⟩ := ih (Nat.le_of_succ_le hk)
        obtain ⟨hNext, hNextValue⟩ := hStep _ k hk hClosed
        rw [List.range_succ, List.foldl_append, List.foldl_cons, List.foldl_nil, sum_range_succ,
          ← add_assoc, ← hValue]
        exact ⟨hNext, hNextValue⟩
  exact (hRun count (Nat.le_refl count)).2

variable {bound : Nat} {cs : List (FixedNat n)}

theorem polynomialValue_set (hcs : cs.length = 2 * maxExtensionDegree - 1) {i : Nat}
    (hi : i < 2 * maxExtensionDegree - 1) (c : FixedNat n) :
    r.polynomialValue (cs.set i c) =
      r.polynomialValue cs +
        (r.scalar (f.mont.residue c) - r.scalar (f.mont.residue (cs.getD i 0))) * r.root ^ i := by
  have hTerm (j : Nat) :
      r.scalar (f.mont.residue ((cs.set i c).getD j 0)) * r.root ^ j =
        r.scalar (f.mont.residue (cs.getD j 0)) * r.root ^ j +
          if i = j then
            (r.scalar (f.mont.residue c) - r.scalar (f.mont.residue (cs.getD i 0))) * r.root ^ i
          else 0 := by
    rw [CoordinateField.getD_set, hcs]
    by_cases hij : i = j
    · rw [if_pos ⟨hij.symm, hi⟩, if_pos hij, hij]
      ring
    · rw [if_neg fun h => hij h.1.symm, if_neg hij, add_zero]
  rw [polynomialValue, polynomialValue, sum_congr rfl fun j _ => hTerm j, sum_add_distrib,
    sum_ite_eq, if_pos (mem_range.mpr hi)]

section Updates

variable (hcs : f.IsPolynomial bound cs) {i : Nat} (hi : i < 2 * maxExtensionDegree - 1)
  {c : FixedNat n} (hc : c.toNat < f.modulus.toNat)

include hcs hi hc

theorem polynomialValue_addAt :
    r.polynomialValue (f.addAt cs i c) =
      r.polynomialValue cs + r.scalar (f.mont.residue c) * r.root ^ i := by
  rw [CoordinateField.addAt, r.polynomialValue_set hcs.length_eq hi, CoordinateField.modulus,
    f.mont.residue_addMod (hcs.coeff_lt i) hc, map_add]
  ring

theorem polynomialValue_subAt :
    r.polynomialValue (f.subAt cs i c) =
      r.polynomialValue cs + -(r.scalar (f.mont.residue c) * r.root ^ i) := by
  rw [CoordinateField.subAt, r.polynomialValue_set hcs.length_eq hi, CoordinateField.modulus,
    f.mont.residue_subMod (hcs.coeff_lt i) hc, map_sub]
  ring

end Updates

theorem polynomialValue_addRow (hcs : f.IsPolynomial (2 * f.degree - 1) cs) (ha : f.IsElement a)
    (b : FieldElement n) {i : Nat} (hi : i < f.degree) :
    r.polynomialValue (f.addRow a b cs i) =
      r.polynomialValue cs +
        r.scalar (f.mont.residue (a.coeff i)) * r.root ^ i * r.value b := by
  have hDegree := r.isBuilt.degree_le
  have hStep (cs : List (FixedNat n)) (j : Nat) (hj : j < f.degree)
      (h : f.IsPolynomial (2 * f.degree - 1) cs) :
      let next := f.addAt cs (i + j) (f.mont.mul (a.coeff i) (b.coeff j))
      f.IsPolynomial (2 * f.degree - 1) next ∧
        r.polynomialValue next = r.polynomialValue cs +
          r.scalar (f.mont.residue (f.mont.mul (a.coeff i) (b.coeff j))) * r.root ^ (i + j) := by
    have hProduct := f.mont.mul_lt (ha.coeff_lt i) (b.coeff j)
    exact ⟨h.addAt (by omega) hProduct, r.polynomialValue_addAt h (by omega) hProduct⟩
  rw [CoordinateField.addRow, r.polynomialValue_foldl_range hStep hcs, value, mul_sum]
  congr 1
  apply sum_congr rfl
  intro j _
  rw [f.mont.residue_mul (ha.coeff_lt i), map_mul, pow_add]
  ring

theorem polynomialValue_product (ha : f.IsElement a) (b : FieldElement n) :
    r.polynomialValue (f.product a b) = r.value a * r.value b := by
  have hZero : r.polynomialValue (List.replicate (2 * maxExtensionDegree - 1) 0) = 0 := by
    apply sum_eq_zero
    intro i _
    rw [(CoordinateField.IsPolynomial.zero (f := f)).coeff_eq_zero i (Nat.zero_le i),
      Montgomery.residue_zero, map_zero, zero_mul]
  refine (r.polynomialValue_foldl_range (P := f.IsPolynomial (2 * f.degree - 1))
    (fun _ i hi h => ⟨h.addRow ha hi, r.polynomialValue_addRow h ha b hi⟩)
    CoordinateField.IsPolynomial.zero).trans ?_
  rw [hZero, zero_add, ← sum_mul, ← value]

/-- Clearing the coefficient at the top does not change the value, since the root to the power of
the degree is what goes around. The branch for a coefficient of zero only saves work. -/
theorem polynomialValue_foldTop {i : Nat} (hi : f.degree + i < 2 * maxExtensionDegree - 1)
    (hcs : f.IsPolynomial (f.degree + i + 1) cs) :
    r.polynomialValue (f.foldTop cs (f.degree + i)) = r.polynomialValue cs := by
  rw [CoordinateField.foldTop]
  split
  · rfl
  · have hLead := hcs.coeff_lt (f.degree + i)
    have hProduct (j : Nat) := f.mont.mul_lt hLead (f.polynomial.coeff j)
    have hDegree := r.isBuilt.degree_le
    -- The coefficient at the top is taken from `cs`, where the loop has not overwritten it.
    have hStep (cs' : List (FixedNat n)) (j : Nat) (hj : j < f.degree)
        (h : f.IsPolynomial (f.degree + i) cs') :
        let taken := f.mont.mul (cs.getD (f.degree + i) 0) (f.polynomial.coeff j)
        let next := f.subAt cs' (f.degree + i - f.degree + j) taken
        f.IsPolynomial (f.degree + i) next ∧
          r.polynomialValue next = r.polynomialValue cs' +
            -(r.scalar (f.mont.residue taken) * r.root ^ (f.degree + i - f.degree + j)) :=
      ⟨h.subAt (by omega) (hProduct j), r.polynomialValue_subAt h (by omega) (hProduct j)⟩
    rw [r.polynomialValue_foldl_range hStep hcs.set_zero]
    have hRow : ∑ j ∈ range f.degree,
        -(r.scalar (f.mont.residue (f.mont.mul (cs.getD (f.degree + i) 0) (f.polynomial.coeff j))) *
          r.root ^ (f.degree + i - f.degree + j)) =
        r.scalar (f.mont.residue (cs.getD (f.degree + i) 0)) * r.root ^ i * r.root ^ f.degree := by
      rw [r.root_pow_degree, mul_neg, mul_sum, ← sum_neg_distrib]
      apply sum_congr rfl
      intro j _
      rw [f.mont.residue_mul hLead, map_mul, Nat.add_sub_cancel_left, pow_add]
      ring
    rw [hRow, r.polynomialValue_set hcs.length_eq hi, Montgomery.residue_zero, map_zero, pow_add]
    ring

theorem polynomialValue_foldProduct (hcs : f.IsPolynomial (2 * f.degree - 1) cs) :
    r.polynomialValue (f.foldProduct cs) = r.polynomialValue cs := by
  have hMax := r.isBuilt.degree_le
  have hDegree := r.isBuilt.one_le_degree
  -- By induction on the coefficients from the degree on; the highest of them is folded first.
  have hRun (count : Nat) (hCount : f.degree + count ≤ 2 * maxExtensionDegree - 1)
      {cs : List (FixedNat n)} (h : f.IsPolynomial (f.degree + count) cs) :
      r.polynomialValue ((List.range count).foldr (fun i cs => f.foldTop cs (f.degree + i)) cs) =
        r.polynomialValue cs := by
    induction count generalizing cs with
    | zero => rfl
    | succ count ih =>
        rw [List.range_succ, List.foldr_append]
        exact (ih (by omega) h.foldTop).trans (r.polynomialValue_foldTop (by omega) h)
  apply hRun _ (by omega)
  rwa [show f.degree + (f.degree - 1) = 2 * f.degree - 1 by omega]

/-- The coefficients below the degree are all that is left of a product. -/
theorem value_ofCoeffs_getD (hcs : f.IsPolynomial f.degree cs) :
    r.value (.ofCoeffs f.degree fun i => cs.getD i 0) = r.polynomialValue cs := by
  have hDegree := r.isBuilt.degree_le
  rw [value_ofCoeffs]
  apply sum_subset (range_subset_range.mpr (by omega))
  intro i _ hi
  rw [mem_range, Nat.not_lt] at hi
  rw [hcs.coeff_eq_zero i hi, Montgomery.residue_zero, map_zero, zero_mul]

theorem value_mul (ha : f.IsElement a) (b : FieldElement n) :
    r.value (f.mul a b) = r.value a * r.value b := by
  rw [CoordinateField.mul]
  split <;> rename_i hDegree
  · rw [value_ofBase, f.mont.residue_mul (ha.coeff_lt 0), map_mul, value, value, hDegree,
      sum_range_one, sum_range_one, pow_zero, mul_one, mul_one]
  · have hProduct := CoordinateField.isPolynomial_product ha b
    rw [r.value_ofCoeffs_getD (CoordinateField.isPolynomial_foldProduct hProduct r.isBuilt),
      r.polynomialValue_foldProduct hProduct, r.polynomialValue_product ha]

theorem value_sqr (ha : f.IsElement a) : r.value (f.sqr a) = r.value a ^ 2 := by
  rw [CoordinateField.sqr, r.value_mul ha a, pow_two]

theorem value_pow (ha : f.IsElement a) (exponent : List UInt64) :
    r.value (f.pow a exponent) = r.value a ^ Limbs.toNat exponent := by
  have hPower := map_powBits (P := f.IsElement) (v := r.value)
    (fun _ _ ha _ => CoordinateField.isElement_mul r.isBuilt ha) (fun _ b ha _ => r.value_mul ha b)
    (Limbs.bits exponent) (CoordinateField.isElement_one r.isBuilt) ha
  rwa [value_one, one_mul, Limbs.ofDigits_bits] at hPower

/-- An element that stands for the number `v` of the ring. -/
structure Represents (a : FieldElement n) (v : R) : Prop where
  isElement : f.IsElement a
  value_eq : r.value a = v

theorem represents_value (ha : f.IsElement a) : r.Represents a (r.value a) :=
  ⟨ha, rfl⟩

theorem represents_zero : r.Represents 0 0 :=
  ⟨CoordinateField.isElement_zero, r.value_zero⟩

theorem represents_one : r.Represents f.one 1 :=
  ⟨CoordinateField.isElement_one r.isBuilt, r.value_one⟩

theorem represents_ofWord (w : UInt64) : r.Represents (f.ofWord w) w.toNat :=
  ⟨CoordinateField.isElement_ofWord r.isBuilt w, r.value_ofWord w⟩

namespace Represents

variable {r} {v w : R}

theorem add (ha : r.Represents a v) (hb : r.Represents b w) :
    r.Represents (f.add a b) (v + w) :=
  ⟨CoordinateField.isElement_add ha.isElement hb.isElement, by
    rw [r.value_add ha.isElement hb.isElement, ha.value_eq, hb.value_eq]⟩

theorem sub (ha : r.Represents a v) (hb : r.Represents b w) :
    r.Represents (f.sub a b) (v - w) :=
  ⟨CoordinateField.isElement_sub ha.isElement hb.isElement, by
    rw [r.value_sub ha.isElement hb.isElement, ha.value_eq, hb.value_eq]⟩

theorem neg (ha : r.Represents a v) : r.Represents (f.neg a) (-v) :=
  ⟨CoordinateField.isElement_neg ha.isElement, by rw [r.value_neg ha.isElement, ha.value_eq]⟩

theorem double (ha : r.Represents a v) : r.Represents (f.double a) (2 * v) :=
  ⟨CoordinateField.isElement_double ha.isElement, by
    rw [r.value_double ha.isElement, ha.value_eq]⟩

theorem mul (ha : r.Represents a v) (hb : r.Represents b w) : r.Represents (f.mul a b) (v * w) :=
  ⟨CoordinateField.isElement_mul r.isBuilt ha.isElement, by
    rw [r.value_mul ha.isElement, ha.value_eq, hb.value_eq]⟩

theorem sqr (ha : r.Represents a v) : r.Represents (f.sqr a) (v ^ 2) :=
  ⟨CoordinateField.isElement_sqr r.isBuilt ha.isElement, by
    rw [r.value_sqr ha.isElement, ha.value_eq]⟩

/-- By the power of one that inversion computes, one is its own inverse. -/
theorem inverse_one : r.Represents (f.inverse f.one) 1 := by
  have hOne := r.represents_one
  refine ⟨CoordinateField.isElement_inverse r.isBuilt hOne.isElement, ?_⟩
  rw [CoordinateField.inverse, r.value_pow hOne.isElement, hOne.value_eq, one_pow]

theorem eq_iff (ha : r.Represents a v) (hb : r.Represents b w) : a = b ↔ v = w := by
  rw [← ha.value_eq, ← hb.value_eq]
  exact ⟨congrArg r.value, r.eq_of_value_eq ha.isElement hb.isElement⟩

theorem isZero_iff (ha : r.Represents a v) : a.isZero = true ↔ v = 0 := by
  rw [FieldElement.isZero_iff, ha.eq_iff r.represents_zero]

end Represents

end RingRealization

/-- In degree one the number of an element is the residue of its constant coefficient. -/
def CoordinateField.residueRing {n : Nat} {f : CoordinateField n} (hf : f.IsBuilt)
    (hDegree : f.degree = 1) : RingRealization f f.Residue where
  scalar := RingHom.id _
  root := -f.mont.residue (f.polynomial.coeff 0)
  isBuilt := hf
  root_pow_degree := by
    rw [hDegree, sum_range_one, pow_one, pow_zero, mul_one, RingHom.id_apply]
  eq_zero_of_sum_eq_zero c hSum i hi := by
    rw [hDegree, sum_range_one, pow_zero, mul_one, RingHom.id_apply] at hSum
    rw [hDegree, Nat.lt_one_iff] at hi
    rw [hi, hSum]

end NybergRueppel
