import NybergRueppel.Proofs.Field.Canonical
import NybergRueppel.Proofs.Field.Extension

/-!
The arithmetic of a coordinate field is that of the remainders modulo its polynomial. This needs
neither a prime modulus nor an irreducible polynomial: the coefficients of an element are those of a
remainder, and equal elements are equal remainders.
-/
namespace NybergRueppel

open Finset Polynomial

namespace CoordinateField

variable {n : Nat} {f : CoordinateField n}

/-- The operations on the elements that can be reached are those of a ring. Decoding pairs the
elements with the lists of `k` integers below `p`, which write the numbers of the ring one by one;
the coefficients of an element stay below `p` and are zero from position `k` on, so that elements
are equal exactly if their numbers are. -/
structure ComputesIn (f : CoordinateField n) (p k : Nat) {R : Type} [CommRing R]
    (number : List (FixedNat n) → R) : Prop where
  bijOn_decode : Set.BijOn f.decode {a | f.Reachable a} {cs | IsCanonical p k cs}
  encode?_eq_some_iff : ∀ cs a, f.encode? cs = some a ↔ f.Reachable a ∧ f.decode a = cs
  bijOn_number : Set.BijOn number {cs | IsCanonical p k cs} Set.univ
  zero : number (f.decode 0) = 0
  one : number (f.decode f.one) = 1
  add : ∀ a b, f.Reachable a → f.Reachable b →
    number (f.decode (f.add a b)) = number (f.decode a) + number (f.decode b)
  sub : ∀ a b, f.Reachable a → f.Reachable b →
    number (f.decode (f.sub a b)) = number (f.decode a) - number (f.decode b)
  neg : ∀ a, f.Reachable a → number (f.decode (f.neg a)) = -number (f.decode a)
  double : ∀ a, f.Reachable a →
    number (f.decode (f.double a)) = number (f.decode a) + number (f.decode a)
  mul : ∀ a b, f.Reachable a → f.Reachable b →
    number (f.decode (f.mul a b)) = number (f.decode a) * number (f.decode b)
  sqr : ∀ a, f.Reachable a →
    number (f.decode (f.sqr a)) = number (f.decode a) * number (f.decode a)
  coeff_lt : ∀ a, f.Reachable a → ∀ i, (a.coeff i).toNat < p
  coeff_eq_zero : ∀ a, f.Reachable a → ∀ i, k ≤ i → a.coeff i = 0
  eq_iff : ∀ a b, f.Reachable a → f.Reachable b →
    (a = b ↔ number (f.decode a) = number (f.decode b))

end CoordinateField

namespace RingRealization

variable {n : Nat} {f : CoordinateField n} {R : Type} [CommRing R] (r : RingRealization f R)

/-- The number of the ring that a list of integers writes. -/
def number (cs : List (FixedNat n)) : R :=
  ∑ i ∈ range f.degree, r.scalar (cs.getD i 0).toNat * r.root ^ i

theorem number_decode {a : FieldElement n} (ha : f.IsElement a) :
    r.number (f.decode a) = r.value a := by
  apply sum_congr rfl
  intro i hi
  rw [CoordinateField.getD_decode a (mem_range.mp hi), f.mont.natCast_decode (ha.coeff_lt i)]

/-- The value of an element is the number that was encoded. -/
theorem value_of_encode?_eq {cs : List (FixedNat n)} {a : FieldElement n}
    (h : f.encode? cs = some a) : r.value a = r.number cs := by
  rw [← r.number_decode (CoordinateField.isElement_of_encode?_eq h),
    CoordinateField.decode_of_encode?_eq r.isBuilt h]

/-- If the powers of the root generate the ring, every number of it is written once. -/
theorem bijOn_number
    (hGenerates : ∀ x : R, ∃ c : Nat → f.Residue,
      ∑ i ∈ range f.degree, r.scalar (c i) * r.root ^ i = x) :
    Set.BijOn r.number {cs | CoordinateField.IsCanonical f.modulus.toNat f.degree cs} Set.univ := by
  have hDecode := CoordinateField.bijOn_decode r.isBuilt
  refine ⟨fun _ _ => Set.mem_univ _, ?_, ?_⟩
  · intro cs hcs ds hds h
    obtain ⟨a, ha, rfl⟩ := hDecode.surjOn hcs
    obtain ⟨b, hb, rfl⟩ := hDecode.surjOn hds
    have haElement := ha.isElement r.isBuilt
    have hbElement := hb.isElement r.isBuilt
    rw [r.number_decode haElement, r.number_decode hbElement] at h
    rw [r.eq_of_value_eq haElement hbElement h]
  · intro x _
    obtain ⟨c, rfl⟩ := hGenerates x
    have hExists (i : Nat) : ∃ v : FixedNat n, v.toNat = (c i).val :=
      FixedNat.exists_toNat_eq ((ZMod.val_lt (c i)).trans f.mont.modulus.toNat_lt)
    choose v hv using hExists
    refine ⟨(List.range f.degree).map v, ⟨by rw [List.length_map, List.length_range], ?_⟩, ?_⟩
    · intro u hu
      obtain ⟨i, -, rfl⟩ := List.mem_map.mp hu
      rw [hv i]
      exact ZMod.val_lt (c i)
    · apply sum_congr rfl
      intro i hi
      rw [List.getD_eq_getElem?_getD, List.getElem?_map, List.getElem?_range (mem_range.mp hi),
        Option.map_some, Option.getD_some, hv i, ZMod.natCast_zmod_val]

/-- The arithmetic of a coordinate field in every ring that realizes it. -/
theorem computesIn
    (hGenerates : ∀ x : R, ∃ c : Nat → f.Residue,
      ∑ i ∈ range f.degree, r.scalar (c i) * r.root ^ i = x) :
    f.ComputesIn f.modulus.toNat f.degree r.number := by
  have hElement {a : FieldElement n} (ha : f.Reachable a) := ha.isElement r.isBuilt
  have hNumber {a : FieldElement n} (ha : f.Reachable a) := r.number_decode (hElement ha)
  constructor
  case bijOn_decode => exact CoordinateField.bijOn_decode r.isBuilt
  case encode?_eq_some_iff => exact fun _ _ => CoordinateField.encode?_eq_some_iff r.isBuilt
  case bijOn_number => exact r.bijOn_number hGenerates
  case zero => rw [hNumber .zero, r.value_zero]
  case one => rw [hNumber .one, r.value_one]
  case add =>
    intro a b ha hb
    rw [hNumber (ha.add hb), hNumber ha, hNumber hb, r.value_add (hElement ha) (hElement hb)]
  case sub =>
    intro a b ha hb
    rw [hNumber (ha.sub hb), hNumber ha, hNumber hb, r.value_sub (hElement ha) (hElement hb)]
  case neg =>
    intro a ha
    rw [hNumber ha.neg, hNumber ha, r.value_neg (hElement ha)]
  case double =>
    intro a ha
    rw [hNumber ha.double, hNumber ha, r.value_double (hElement ha), two_mul]
  case mul =>
    intro a b ha hb
    rw [hNumber (ha.mul hb), hNumber ha, hNumber hb, r.value_mul (hElement ha)]
  case sqr =>
    intro a ha
    rw [hNumber ha.sqr, hNumber ha, r.value_sqr (hElement ha), pow_two]
  case coeff_lt => exact fun a ha => (hElement ha).coeff_lt
  case coeff_eq_zero => exact fun a ha => (hElement ha).coeff_eq_zero
  case eq_iff =>
    intro a b ha hb
    rw [hNumber ha, hNumber hb]
    exact ⟨congrArg r.value, r.eq_of_value_eq (hElement ha) (hElement hb)⟩

end RingRealization

namespace CoordinateField

variable {n : Nat} {f : CoordinateField n}

/-- The remainders modulo the defining polynomial, whatever the modulus and the polynomial are. -/
noncomputable def remainderRing (hf : f.IsBuilt) :
    RingRealization f (AdjoinRoot f.definingPolynomial) where
  scalar := AdjoinRoot.of f.definingPolynomial
  root := AdjoinRoot.root f.definingPolynomial
  isBuilt := hf
  root_pow_degree := root_pow_degree_eq
  eq_zero_of_sum_eq_zero := eq_zero_of_sum_mul_root_pow_eq_zero

/-- Dividing by the defining polynomial leaves a polynomial of a lower degree. -/
theorem exists_sum_mul_root_pow_eq (hf : f.IsBuilt) (x : AdjoinRoot f.definingPolynomial) :
    ∃ c : Nat → f.Residue,
      ∑ i ∈ range f.degree,
        AdjoinRoot.of f.definingPolynomial (c i) * AdjoinRoot.root f.definingPolynomial ^ i =
      x := by
  have hMonic := f.monic_definingPolynomial
  have hNotOne : f.definingPolynomial ≠ 1 := by
    intro h
    have hDegree := f.natDegree_definingPolynomial
    rw [h, natDegree_one] at hDegree
    exact absurd hf.one_le_degree (by omega)
  have hLow : (AdjoinRoot.modByMonicHom hMonic x).natDegree < f.degree := by
    obtain ⟨q, rfl⟩ := AdjoinRoot.mk_surjective x
    rw [AdjoinRoot.modByMonicHom_mk, ← f.natDegree_definingPolynomial]
    exact natDegree_modByMonic_lt q hMonic hNotOne
  refine ⟨(AdjoinRoot.modByMonicHom hMonic x).coeff, ?_⟩
  rw [sum_mul_root_pow_eq_mk, ← as_sum_range_C_mul_X_pow' _ hLow]
  exact AdjoinRoot.mk_leftInverse hMonic x

/-- The polynomial with the given coefficients below degree `k`. -/
noncomputable def lowPolynomial (p k : Nat) (cs : List (FixedNat n)) : (ZMod p)[X] :=
  ∑ i ∈ range k, C ((cs.getD i 0).toNat : ZMod p) * X ^ i

/-- The monic polynomial with the given low coefficients. -/
noncomputable def monicPolynomial (p : Nat) (coeffs : List (FixedNat n)) : (ZMod p)[X] :=
  X ^ coeffs.length + lowPolynomial p coeffs.length coeffs

theorem number_remainderRing (hf : f.IsBuilt) (cs : List (FixedNat n)) :
    (remainderRing hf).number cs =
      AdjoinRoot.mk f.definingPolynomial (lowPolynomial f.mont.modulus.toNat f.degree cs) :=
  sum_mul_root_pow_eq_mk fun i => ((cs.getD i 0).toNat : f.Residue)

theorem computesIn_of_ofPolynomial_eq {prime : FixedNat n} {coeffs : List (FixedNat n)}
    (h : ofPolynomial prime coeffs = .ok f) :
    f.ComputesIn prime.toNat coeffs.length fun cs =>
      AdjoinRoot.mk (monicPolynomial prime.toNat coeffs)
        (lowPolynomial prime.toNat coeffs.length cs) := by
  obtain ⟨hLower, hUpper, hBuild⟩ := ofPolynomial_eq_ok h
  have hPolynomial := definingPolynomial_of_build_eq (by omega) hUpper hBuild
  obtain ⟨hBuilt, rfl, hDegree, -⟩ := build_eq_ok (by omega) hUpper hBuild
  have hRing := (remainderRing hBuilt).computesIn (exists_sum_mul_root_pow_eq hBuilt)
  rw [funext (number_remainderRing hBuilt), hPolynomial, hDegree] at hRing
  exact hRing

theorem number_residueRing (hf : f.IsBuilt) (hDegree : f.degree = 1) (cs : List (FixedNat n)) :
    (residueRing hf hDegree).number cs = ((cs.headD 0).toNat : f.Residue) := by
  rw [RingRealization.number, hDegree, sum_range_one, pow_zero, mul_one, List.headD_eq_head?_getD,
    List.head?_eq_getElem?, ← List.getD_eq_getElem?_getD]
  rfl

theorem computesIn_of_ofPrime_eq {prime : FixedNat n} (h : ofPrime prime = .ok f) :
    f.ComputesIn prime.toNat 1 fun cs => ((cs.headD 0).toNat : ZMod prime.toNat) := by
  obtain ⟨hBuilt, rfl, hDegree⟩ := ofPrime_eq_ok h
  have hRing := (residueRing hBuilt hDegree).computesIn fun x =>
    ⟨fun _ => x, by
      rw [hDegree, sum_range_one, pow_zero, mul_one]
      rfl⟩
  rw [funext (number_residueRing hBuilt hDegree), hDegree] at hRing
  exact hRing

/-- A modulus does not have to be prime to be accepted. -/
theorem exists_ofPrime_eq_ok_iff (prime : FixedNat n) :
    (∃ f, ofPrime prime = .ok f) ↔ prime.toNat % 2 = 1 ∧ 3 ≤ prime.toNat := by
  constructor
  · rintro ⟨f, h⟩
    obtain ⟨-, rfl, -⟩ := ofPrime_eq_ok h
    exact ⟨f.mont.modulus_mod_two, f.mont.three_le_modulus⟩
  · intro h
    obtain ⟨hBad, -⟩ | ⟨-, ⟨hBad, -⟩ | ⟨-, hField⟩⟩ := build_cases prime (Nat.le_refl 1) []
    · exact absurd h hBad
    · exact absurd (fun c hc => absurd hc List.not_mem_nil) hBad
    · exact hField

/-- The arithmetic of a coordinate field is that of the residues modulo its modulus, and for an
extension that of the remainders modulo its polynomial. Every odd modulus from three on has such a
field. -/
theorem computesIn_remainders (prime : FixedNat n) :
    ((∃ f, ofPrime prime = .ok f) ↔ prime.toNat % 2 = 1 ∧ 3 ≤ prime.toNat) ∧
      (∀ f, ofPrime prime = .ok f →
        f.ComputesIn prime.toNat 1 fun cs => ((cs.headD 0).toNat : ZMod prime.toNat)) ∧
      ∀ coeffs f, ofPolynomial prime coeffs = .ok f →
        f.ComputesIn prime.toNat coeffs.length fun cs =>
          AdjoinRoot.mk (monicPolynomial prime.toNat coeffs)
            (lowPolynomial prime.toNat coeffs.length cs) :=
  ⟨exists_ofPrime_eq_ok_iff prime, fun _ h => computesIn_of_ofPrime_eq h,
    fun _ _ h => computesIn_of_ofPolynomial_eq h⟩

theorem isSome_ofPolynomial_fifteen :
    (ofPolynomial (.ofWord 15 : FixedNat 1) [.ofWord 1, 0]).toOption.isSome = true := by
  decide +kernel

/-- The modulus 15 is not a prime, and `x ^ 2 + 1` has no root modulo it. -/
theorem computesIn_remainders_fifteen :
    let fifteen : FixedNat 1 := .ofWord 15
    let coeffs : List (FixedNat 1) := [.ofWord 1, 0]
    (∃ f, ofPrime fifteen = .ok f ∧
      f.ComputesIn fifteen.toNat 1 fun cs => ((cs.headD 0).toNat : ZMod fifteen.toNat)) ∧
    ∃ f, ofPolynomial fifteen coeffs = .ok f ∧
      f.ComputesIn fifteen.toNat 2 fun cs =>
        AdjoinRoot.mk (monicPolynomial fifteen.toNat coeffs)
          (lowPolynomial fifteen.toNat 2 cs) := by
  intro fifteen coeffs
  obtain ⟨hAccepted, hPrime, hPolynomial⟩ := computesIn_remainders fifteen
  obtain ⟨f, hf⟩ := hAccepted.mpr ⟨by decide, by decide⟩
  have hExtension := eq_ok_get_toOption isSome_ofPolynomial_fifteen
  exact ⟨⟨f, hf, hPrime f hf⟩, _, hExtension, hPolynomial coeffs _ hExtension⟩

end CoordinateField

end NybergRueppel
