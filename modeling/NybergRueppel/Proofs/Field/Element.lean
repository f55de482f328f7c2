import NybergRueppel.Field.Basic
import NybergRueppel.Proofs.BufferedInt.Value
import NybergRueppel.Proofs.Montgomery.Power

/-!
Elements of a coordinate field, coefficient by coefficient. A coefficient of an element is below the
prime, and those at and above the degree are zero; every operation of the field gives such elements.
A product is a longer list of coefficients on the way, of which those at the top are cleared.
-/
namespace NybergRueppel

theorem eq_ok_get_toOption {ε α : Type} {result : Except ε α}
    (h : result.toOption.isSome = true) : result = .ok (result.toOption.get h) := by
  cases result with
  | error _ => cases h
  | ok a => rfl

namespace FieldElement

variable {n : Nat}

theorem coeff_eq_getElem (a : FieldElement n) {i : Nat} (hi : i < maxExtensionDegree) :
    a.coeff i = a.coeffs[i] := by
  rw [coeff, Array.getD_eq_getD_getElem?, Vector.getElem?_toArray, Vector.getElem?_eq_getElem hi,
    Option.getD_some]

theorem coeff_of_le (a : FieldElement n) {i : Nat} (hi : maxExtensionDegree ≤ i) :
    a.coeff i = 0 := by
  rw [coeff, Array.getD_eq_getD_getElem?, Vector.getElem?_toArray, Vector.getElem?_eq_none hi,
    Option.getD_none]

theorem coeff_ofCoeffs (degree : Nat) (c : Nat → FixedNat n) (i : Nat) :
    (ofCoeffs degree c).coeff i = if i < maxExtensionDegree ∧ i < degree then c i else 0 := by
  by_cases hi : i < maxExtensionDegree
  · rw [coeff_eq_getElem _ hi, ofCoeffs, Vector.getElem_ofFn]
    simp only [hi, true_and]
  · rw [coeff_of_le _ (Nat.le_of_not_lt hi), if_neg fun h => hi h.1]

theorem eq_of_coeff_eq {a b : FieldElement n} (h : ∀ i, a.coeff i = b.coeff i) : a = b := by
  obtain ⟨xs⟩ := a
  obtain ⟨ys⟩ := b
  congr 1
  apply Vector.ext
  intro i hi
  have hCoeff := h i
  rwa [coeff_eq_getElem _ hi, coeff_eq_getElem _ hi] at hCoeff

@[simp]
theorem coeff_zero (i : Nat) : (0 : FieldElement n).coeff i = 0 :=
  (coeff_ofCoeffs 0 _ i).trans (if_neg fun h => Nat.not_lt_zero i h.2)

theorem coeff_ofBase (c : FixedNat n) (i : Nat) :
    (ofBase c).coeff i = if i = 0 then c else 0 := by
  rw [ofBase, coeff_ofCoeffs]
  cases i with
  | zero => rfl
  | succ i => rw [if_neg fun h => by omega, if_neg i.succ_ne_zero]

theorem isZero_iff (a : FieldElement n) : a.isZero = true ↔ a = 0 := by
  rw [isZero, Vector.all_eq_true]
  constructor
  · intro h
    apply eq_of_coeff_eq
    intro i
    rw [coeff_zero]
    by_cases hi : i < maxExtensionDegree
    · rw [coeff_eq_getElem _ hi]
      exact (FixedNat.isZero_iff_eq_zero _).mp (h i hi)
    · exact coeff_of_le _ (Nat.le_of_not_lt hi)
  · rintro rfl i hi
    rw [← coeff_eq_getElem _ hi, FixedNat.isZero_iff_eq_zero, coeff_zero]

end FieldElement

namespace CoordinateField

variable {n : Nat}

/-- The coefficients are below the prime, and only those below the degree may differ from zero. -/
structure IsElement (f : CoordinateField n) (a : FieldElement n) : Prop where
  coeff_lt : ∀ i, (a.coeff i).toNat < f.modulus.toNat
  coeff_eq_zero : ∀ i, f.degree ≤ i → a.coeff i = 0

/-- What the constructors ensure: the degree is between one and the largest that elements have room
for, and the exponent of inversion is the number of elements less two. -/
structure IsBuilt (f : CoordinateField n) : Prop where
  one_le_degree : 1 ≤ f.degree
  degree_le : f.degree ≤ maxExtensionDegree
  isElement_polynomial : f.IsElement f.polynomial
  toNat_inverseExponent : Limbs.toNat f.inverseExponent + 2 = f.modulus.toNat ^ f.degree

section Elements

variable {f : CoordinateField n}

theorem coeff_ofCoeffs (hf : f.IsBuilt) (c : Nat → FixedNat n) {i : Nat} (hi : i < f.degree) :
    (FieldElement.ofCoeffs f.degree c).coeff i = c i := by
  rw [FieldElement.coeff_ofCoeffs, if_pos ⟨Nat.lt_of_lt_of_le hi hf.degree_le, hi⟩]

theorem isElement_ofCoeffs {c : Nat → FixedNat n}
    (hc : ∀ i, i < f.degree → (c i).toNat < f.modulus.toNat) :
    f.IsElement (.ofCoeffs f.degree c) := by
  constructor
  · intro i
    rw [FieldElement.coeff_ofCoeffs]
    split <;> rename_i hi
    · exact hc i hi.2
    · exact f.mont.zero_lt_modulus
  · intro i hi
    rw [FieldElement.coeff_ofCoeffs, if_neg fun h => by omega]

theorem isElement_zero : f.IsElement 0 := by
  constructor
  · intro i
    rw [FieldElement.coeff_zero]
    exact f.mont.zero_lt_modulus
  · intro i _
    exact FieldElement.coeff_zero i

theorem isElement_ofBase (hf : f.IsBuilt) {c : FixedNat n} (hc : c.toNat < f.modulus.toNat) :
    f.IsElement (.ofBase c) := by
  have hDegree := hf.one_le_degree
  constructor
  · intro i
    rw [FieldElement.coeff_ofBase]
    split
    · exact hc
    · exact f.mont.zero_lt_modulus
  · intro i hi
    rw [FieldElement.coeff_ofBase, if_neg (by omega)]

variable {a b : FieldElement n}

theorem isElement_one (hf : f.IsBuilt) : f.IsElement f.one :=
  isElement_ofBase hf f.mont.one_lt

theorem isElement_ofWord (hf : f.IsBuilt) (w : UInt64) : f.IsElement (f.ofWord w) :=
  isElement_ofBase hf (f.mont.encode_lt _)

theorem isElement_add (ha : f.IsElement a) (hb : f.IsElement b) : f.IsElement (f.add a b) :=
  isElement_ofCoeffs fun i _ => f.mont.addMod_lt (ha.coeff_lt i) (hb.coeff_lt i)

theorem isElement_sub (ha : f.IsElement a) (hb : f.IsElement b) : f.IsElement (f.sub a b) :=
  isElement_ofCoeffs fun i _ => f.mont.subMod_lt (ha.coeff_lt i) (hb.coeff_lt i)

theorem isElement_neg (ha : f.IsElement a) : f.IsElement (f.neg a) :=
  isElement_sub isElement_zero ha

theorem isElement_double (ha : f.IsElement a) : f.IsElement (f.double a) :=
  isElement_add ha ha

/-- The list of the coefficients of a polynomial, with room for a product of two elements. They are
below the prime, and only those below `bound` may differ from zero. -/
structure IsPolynomial (f : CoordinateField n) (bound : Nat) (cs : List (FixedNat n)) : Prop where
  length_eq : cs.length = 2 * maxExtensionDegree - 1
  coeff_lt : ∀ i, (cs.getD i 0).toNat < f.modulus.toNat
  coeff_eq_zero : ∀ i, bound ≤ i → cs.getD i 0 = 0

theorem getD_set (cs : List (FixedNat n)) (i : Nat) (c : FixedNat n) (j : Nat) :
    (cs.set i c).getD j 0 = if j = i ∧ i < cs.length then c else cs.getD j 0 := by
  rw [List.getD_eq_getElem?_getD, List.getElem?_set, List.getD_eq_getElem?_getD]
  by_cases hij : i = j
  · subst hij
    by_cases hi : i < cs.length <;> simp [hi]
  · rw [if_neg hij, if_neg fun h => hij h.1.symm]

/-- A loop over a range keeps what each of its steps keeps. -/
theorem foldl_range_closed {α : Type} {P : α → Prop} {step : α → Nat → α} {count : Nat}
    (hStep : ∀ s i, i < count → P s → P (step s i)) {s : α} (hs : P s) :
    P ((List.range count).foldl step s) :=
  List.foldlRecOn _ step hs fun s hs i hi => hStep s i (List.mem_range.mp hi) hs

namespace IsPolynomial

variable {bound : Nat} {cs : List (FixedNat n)}

theorem zero : f.IsPolynomial bound (List.replicate (2 * maxExtensionDegree - 1) 0) := by
  have hZero (i : Nat) :
      (List.replicate (2 * maxExtensionDegree - 1) (0 : FixedNat n)).getD i 0 = 0 := by
    rw [List.getD_eq_getElem?_getD, List.getElem?_replicate]
    split <;> rfl
  exact ⟨List.length_replicate, fun i => by rw [hZero i]; exact f.mont.zero_lt_modulus,
    fun i _ => hZero i⟩

theorem set (h : f.IsPolynomial bound cs) {i : Nat} (hi : i < bound) {c : FixedNat n}
    (hc : c.toNat < f.modulus.toNat) : f.IsPolynomial bound (cs.set i c) := by
  refine ⟨List.length_set.trans h.length_eq, ?_, ?_⟩
  · intro j
    rw [getD_set]
    split
    · exact hc
    · exact h.coeff_lt j
  · intro j hj
    rw [getD_set, if_neg fun h => by omega]
    exact h.coeff_eq_zero j hj

theorem set_zero {i : Nat} (h : f.IsPolynomial (i + 1) cs) : f.IsPolynomial i (cs.set i 0) := by
  have hCleared := h.set (Nat.lt_succ_self i) f.mont.zero_lt_modulus
  refine ⟨hCleared.length_eq, hCleared.coeff_lt, ?_⟩
  intro j hj
  by_cases hTop : j = i
  · rw [hTop, getD_set]
    split <;> rename_i hRange
    · rfl
    · rw [List.getD_eq_getElem?_getD, List.getElem?_eq_none (by omega), Option.getD_none]
  · exact hCleared.coeff_eq_zero j (by omega)

theorem addAt (h : f.IsPolynomial bound cs) {i : Nat} (hi : i < bound) {c : FixedNat n}
    (hc : c.toNat < f.modulus.toNat) : f.IsPolynomial bound (f.addAt cs i c) :=
  h.set hi (f.mont.addMod_lt (h.coeff_lt i) hc)

theorem subAt (h : f.IsPolynomial bound cs) {i : Nat} (hi : i < bound) {c : FixedNat n}
    (hc : c.toNat < f.modulus.toNat) : f.IsPolynomial bound (f.subAt cs i c) :=
  h.set hi (f.mont.subMod_lt (h.coeff_lt i) hc)

theorem addRow (h : f.IsPolynomial (2 * f.degree - 1) cs) (ha : f.IsElement a) {i : Nat}
    (hi : i < f.degree) : f.IsPolynomial (2 * f.degree - 1) (f.addRow a b cs i) :=
  foldl_range_closed
    (fun _ _ hj h => h.addAt (by omega) (f.mont.mul_lt (ha.coeff_lt i) _)) h

/-- One step clears the highest coefficient and writes only below it. -/
theorem foldTop {i : Nat} (h : f.IsPolynomial (f.degree + i + 1) cs) :
    f.IsPolynomial (f.degree + i) (f.foldTop cs (f.degree + i)) := by
  rw [CoordinateField.foldTop]
  split <;> rename_i hLead
  · refine ⟨h.length_eq, h.coeff_lt, ?_⟩
    intro j hj
    by_cases hTop : j = f.degree + i
    · rw [hTop, ← FixedNat.isZero_iff_eq_zero, hLead]
    · exact h.coeff_eq_zero j (by omega)
  · exact foldl_range_closed
      (fun _ _ hj h' => h'.subAt (by omega) (f.mont.mul_lt (h.coeff_lt _) _)) h.set_zero

end IsPolynomial

theorem isPolynomial_product (ha : f.IsElement a) (b : FieldElement n) :
    f.IsPolynomial (2 * f.degree - 1) (f.product a b) :=
  foldl_range_closed (fun _ _ hi h => h.addRow ha hi) IsPolynomial.zero

/-- What remains of a product has no coefficient at the degree of the field or above. -/
theorem isPolynomial_foldProduct {cs : List (FixedNat n)}
    (h : f.IsPolynomial (2 * f.degree - 1) cs) (hf : f.IsBuilt) :
    f.IsPolynomial f.degree (f.foldProduct cs) := by
  have hRun (count : Nat) {cs : List (FixedNat n)} (h : f.IsPolynomial (f.degree + count) cs) :
      f.IsPolynomial f.degree
        ((List.range count).foldr (fun i cs => f.foldTop cs (f.degree + i)) cs) := by
    induction count generalizing cs with
    | zero => exact h
    | succ count ih =>
        rw [List.range_succ, List.foldr_append]
        exact ih h.foldTop
  have hDegree := hf.one_le_degree
  apply hRun
  rwa [show f.degree + (f.degree - 1) = 2 * f.degree - 1 by omega]

theorem isElement_mul (hf : f.IsBuilt) (ha : f.IsElement a) : f.IsElement (f.mul a b) := by
  rw [mul]
  split
  · exact isElement_ofBase hf (f.mont.mul_lt (ha.coeff_lt 0) _)
  · exact isElement_ofCoeffs fun i _ =>
      (isPolynomial_foldProduct (isPolynomial_product ha b) hf).coeff_lt i

theorem isElement_sqr (hf : f.IsBuilt) (ha : f.IsElement a) : f.IsElement (f.sqr a) :=
  isElement_mul hf ha

theorem isElement_pow (hf : f.IsBuilt) (ha : f.IsElement a) (exponent : List UInt64) :
    f.IsElement (f.pow a exponent) :=
  powBits_closed (P := f.IsElement) (fun _ _ ha _ => isElement_mul hf ha) (Limbs.bits exponent)
    (isElement_one hf) ha

theorem isElement_inverse (hf : f.IsBuilt) (ha : f.IsElement a) : f.IsElement (f.inverse a) :=
  isElement_pow hf ha f.inverseExponent

/-- In degree one a power is formed by the products of constant coefficients. -/
theorem powBits_ofBase (hDegree : f.degree = 1) (bits : List Bool) (c : FixedNat n)
    (b : FieldElement n) :
    powBits f.mul bits (.ofBase c) b = .ofBase (powBits f.mont.mul bits c (b.coeff 0)) := by
  have hMul (x y : FieldElement n) : f.mul x y = .ofBase (f.mont.mul (x.coeff 0) (y.coeff 0)) :=
    if_pos hDegree
  induction bits generalizing c b with
  | nil => rfl
  | cons bit bits ih =>
      rw [powBits, powBits, hMul b b]
      cases bit with
      | false =>
          rw [if_neg Bool.false_ne_true, if_neg Bool.false_ne_true, ih, FieldElement.coeff_ofBase,
            if_pos rfl]
      | true =>
          rw [if_pos rfl, if_pos rfl, hMul, ih, FieldElement.coeff_ofBase,
            FieldElement.coeff_ofBase, if_pos rfl, if_pos rfl]

/-- The power of an element of degree one is that of its constant coefficient. -/
theorem pow_eq_ofBase (hDegree : f.degree = 1) (a : FieldElement n) (exponent : List UInt64) :
    f.pow a exponent = .ofBase (f.mont.pow (a.coeff 0) exponent) :=
  powBits_ofBase hDegree (Limbs.bits exponent) f.mont.one a

/-- In degree one the number of elements is the modulus, so that the inverse is that of the constant
coefficient. -/
theorem inverse_eq_ofBase (hf : f.IsBuilt) (hDegree : f.degree = 1) (a : FieldElement n) :
    f.inverse a = .ofBase (f.mont.inverse (a.coeff 0)) := by
  have hExponent : Limbs.toNat f.inverseExponent =
      Limbs.toNat (f.mont.modulus - FixedNat.ofWord 2).limbs := by
    have hCount := hf.toNat_inverseExponent
    rw [hDegree, pow_one, modulus, ← f.mont.toNat_modulus_sub_two] at hCount
    exact Nat.add_right_cancel hCount
  rw [inverse, pow_eq_ofBase hDegree, Montgomery.inverse, Montgomery.pow, Montgomery.pow,
    powBits_eq_of_toNat_eq _ hExponent]

end Elements

/-- A field is one that a constructor of fields has returned. -/
inductive IsConstructed (f : CoordinateField n) : Prop where
  | ofPrime (prime : FixedNat n) (h : ofPrime prime = .ok f)
  | ofPolynomial (prime : FixedNat n) (coeffs : List (FixedNat n))
    (h : ofPolynomial prime coeffs = .ok f)

theorem magnitude_cardinality (prime : FixedNat n) {degree : Nat} (hDegree : 1 ≤ degree) :
    (cardinality prime degree).magnitude = prime.toNat ^ degree := by
  obtain ⟨count, rfl⟩ : ∃ count, degree = count + 1 := ⟨degree - 1, by omega⟩
  rw [cardinality, Nat.add_sub_cancel]
  induction count with
  | zero => simp [BufferedInt.magnitude_ofFixed]
  | succ count ih =>
      rw [List.range_succ, List.foldl_append, List.foldl_cons, List.foldl_nil,
        BufferedInt.magnitude_mul, ih (by omega), BufferedInt.magnitude_ofFixed, ← pow_succ]

theorem build_eq_ok {prime : FixedNat n} {degree : Nat} {coeffs : List (FixedNat n)}
    {f : CoordinateField n} (hDegree : 1 ≤ degree) (hMax : degree ≤ maxExtensionDegree)
    (h : build prime degree coeffs = .ok f) :
    f.IsBuilt ∧ f.modulus = prime ∧ f.degree = degree ∧
      f.polynomial = .ofCoeffs degree fun i => f.mont.encode (coeffs.getD i 0) := by
  rw [build] at h
  split at h
  · cases h
  · rename_i mont hMont
    split at h
    · cases h
    · split at h
      · cases h
      · rename_i exponent hExponent
        cases h
        have hModulus : mont.modulus = prime := Montgomery.ofModulus?_eq_some hMont
        refine ⟨⟨hDegree, hMax, ?_, ?_⟩, hModulus, rfl, rfl⟩
        · dsimp only
          apply isElement_ofCoeffs
          intro i _
          exact mont.encode_lt _
        · have hCardinality := magnitude_cardinality prime hDegree
          rw [← BufferedInt.magnitude_subWord? hExponent, ← hModulus] at hCardinality
          exact hCardinality

theorem ofPrime_eq_ok {prime : FixedNat n} {f : CoordinateField n} (h : ofPrime prime = .ok f) :
    f.IsBuilt ∧ f.modulus = prime ∧ f.degree = 1 := by
  obtain ⟨hBuilt, hModulus, hDegree, -⟩ := build_eq_ok (Nat.le_refl 1) (by decide) h
  exact ⟨hBuilt, hModulus, hDegree⟩

/-- A modulus has to be odd and at least three, and the coefficients have to be below it; nothing
else is needed. -/
theorem build_cases (prime : FixedNat n) {degree : Nat} (hDegree : 1 ≤ degree)
    (coeffs : List (FixedNat n)) :
    (¬(prime.toNat % 2 = 1 ∧ 3 ≤ prime.toNat) ∧
      build prime degree coeffs = .error (.invalidField .modulusNotOddPrime)) ∨
    (prime.toNat % 2 = 1 ∧ 3 ≤ prime.toNat) ∧
      ((¬(∀ c ∈ coeffs, c.toNat < prime.toNat) ∧
        build prime degree coeffs = .error (.invalidField .coefficientNotReduced)) ∨
      (∀ c ∈ coeffs, c.toNat < prime.toNat) ∧ ∃ f, build prime degree coeffs = .ok f) := by
  have hReduced : (∀ c ∈ coeffs, c < prime) ↔ ∀ c ∈ coeffs, c.toNat < prime.toNat := by
    simp only [FixedNat.lt_iff]
  rw [← Montgomery.isSome_ofModulus?_iff, ← hReduced, build]
  cases hMont : Montgomery.ofModulus? prime with
  | none => exact .inl ⟨Bool.false_ne_true, rfl⟩
  | some mont =>
      refine .inr ⟨rfl, ?_⟩
      by_cases hCoeffs : ∀ c ∈ coeffs, c < prime
      · have hModulus : mont.modulus = prime := Montgomery.ofModulus?_eq_some hMont
        have hLarge : 3 ≤ prime.toNat := hModulus ▸ mont.three_le_modulus
        have hPower : prime.toNat ≤ prime.toNat ^ degree := Nat.le_self_pow (by omega) _
        have hEnough : (2 : UInt64).toNat ≤ (cardinality prime degree).magnitude := by
          rw [magnitude_cardinality prime hDegree, show (2 : UInt64).toNat = 2 from rfl]
          omega
        obtain ⟨exponent, hExponent⟩ := Option.isSome_iff_exists.mp
          (BufferedInt.isSome_subWord? hEnough)
        refine .inr ⟨hCoeffs, ?_⟩
        simp only [if_neg (not_not_intro hCoeffs), hExponent, Except.ok.injEq, exists_eq']
      · exact .inl ⟨hCoeffs, by simp only [if_pos hCoeffs]⟩

theorem ofPolynomial_eq_ok {prime : FixedNat n} {coeffs : List (FixedNat n)}
    {f : CoordinateField n} (h : ofPolynomial prime coeffs = .ok f) :
    2 ≤ coeffs.length ∧ coeffs.length ≤ maxExtensionDegree ∧
      build prime coeffs.length coeffs = .ok f := by
  rw [ofPolynomial] at h
  split at h <;> rename_i hDegree
  · cases h
  · split at h
    · cases h
    · rename_i built hBuilt
      split at h
      · cases h
      · cases h
        exact ⟨by omega, by omega, hBuilt⟩

theorem IsConstructed.isBuilt {f : CoordinateField n} (h : f.IsConstructed) : f.IsBuilt := by
  cases h with
  | ofPrime prime h => exact (ofPrime_eq_ok h).1
  | ofPolynomial prime coeffs h =>
      obtain ⟨hLower, hUpper, hBuild⟩ := ofPolynomial_eq_ok h
      exact (build_eq_ok (by omega) hUpper hBuild).1

end CoordinateField

end NybergRueppel
