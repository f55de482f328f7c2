import Mathlib.Data.Set.Function
import NybergRueppel.Proofs.Field.Element

/-!
Canonical coefficients. The elements that can be reached from the constants and from encoded lists
by the operations are those with coefficients below the modulus and zeros from the degree on, and
decoding pairs them one by one with the lists of integers below the modulus.
-/
namespace NybergRueppel.CoordinateField

variable {n : Nat} {f : CoordinateField n} {cs : List (FixedNat n)} {a b : FieldElement n}

/-- A list of `k` integers below `p`. -/
structure IsCanonical (p k : Nat) (cs : List (FixedNat n)) : Prop where
  length_eq : cs.length = k
  lt_modulus : ∀ c ∈ cs, c.toNat < p

/-- The elements that the operations of a field make, one from another. -/
inductive Reachable (f : CoordinateField n) : FieldElement n → Prop where
  | zero : Reachable f 0
  | one : Reachable f f.one
  | ofWord (w : UInt64) : Reachable f (f.ofWord w)
  | encode {cs : List (FixedNat n)} {a : FieldElement n} (h : f.encode? cs = some a) :
      Reachable f a
  | add {a b : FieldElement n} (ha : Reachable f a) (hb : Reachable f b) : Reachable f (f.add a b)
  | sub {a b : FieldElement n} (ha : Reachable f a) (hb : Reachable f b) : Reachable f (f.sub a b)
  | neg {a : FieldElement n} (ha : Reachable f a) : Reachable f (f.neg a)
  | double {a : FieldElement n} (ha : Reachable f a) : Reachable f (f.double a)
  | mul {a b : FieldElement n} (ha : Reachable f a) (hb : Reachable f b) : Reachable f (f.mul a b)
  | sqr {a : FieldElement n} (ha : Reachable f a) : Reachable f (f.sqr a)
  | pow {a : FieldElement n} (ha : Reachable f a) (exponent : List UInt64) :
      Reachable f (f.pow a exponent)
  | inverse {a : FieldElement n} (ha : Reachable f a) : Reachable f (f.inverse a)

theorem encode?_eq_some (h : f.encode? cs = some a) :
    cs.length = f.degree ∧ (∀ c ∈ cs, c < f.modulus) ∧
      a = .ofCoeffs f.degree fun i => f.mont.encode (cs.getD i 0) := by
  rw [encode?] at h
  split at h <;> rename_i hAccepted
  · cases h
    exact ⟨hAccepted.1, hAccepted.2, rfl⟩
  · cases h

theorem isElement_of_encode?_eq (h : f.encode? cs = some a) : f.IsElement a := by
  obtain ⟨-, -, rfl⟩ := encode?_eq_some h
  exact isElement_ofCoeffs fun i _ => f.mont.encode_lt _

theorem IsCanonical.of_encode?_eq (h : f.encode? cs = some a) :
    IsCanonical f.modulus.toNat f.degree cs := by
  obtain ⟨hLength, hLess, -⟩ := encode?_eq_some h
  exact ⟨hLength, fun c hc => (FixedNat.lt_iff _ _).mp (hLess c hc)⟩

theorem IsCanonical.encode?_eq (h : IsCanonical f.modulus.toNat f.degree cs) :
    f.encode? cs = some (.ofCoeffs f.degree fun i => f.mont.encode (cs.getD i 0)) := by
  rw [encode?, if_pos]
  exact ⟨h.length_eq, fun c hc => (FixedNat.lt_iff _ _).mpr (h.lt_modulus c hc)⟩

theorem getD_decode (a : FieldElement n) {i : Nat} (hi : i < f.degree) :
    (f.decode a).getD i 0 = f.mont.decode (a.coeff i) := by
  rw [decode, List.getD_eq_getElem?_getD, List.getElem?_map, List.getElem?_range hi,
    Option.map_some, Option.getD_some]

theorem length_decode (a : FieldElement n) : (f.decode a).length = f.degree := by
  rw [decode, List.length_map, List.length_range]

theorem isCanonical_decode (ha : f.IsElement a) :
    IsCanonical f.modulus.toNat f.degree (f.decode a) := by
  refine ⟨length_decode a, ?_⟩
  intro c hc
  obtain ⟨i, -, rfl⟩ := List.mem_map.mp hc
  exact f.mont.decode_lt (ha.coeff_lt i)

/-- Encoding brings back the element that was decoded. -/
theorem encode?_decode (hf : f.IsBuilt) (ha : f.IsElement a) :
    f.encode? (f.decode a) = some a := by
  rw [(isCanonical_decode ha).encode?_eq, Option.some.injEq]
  apply FieldElement.eq_of_coeff_eq
  intro i
  by_cases hi : i < f.degree
  · rw [coeff_ofCoeffs hf _ hi, getD_decode a hi, f.mont.encode_decode (ha.coeff_lt i)]
  · rw [FieldElement.coeff_ofCoeffs, if_neg fun h => hi h.2, ha.coeff_eq_zero i (by omega)]

/-- Decoding brings back the list that was encoded. -/
theorem decode_of_encode?_eq (hf : f.IsBuilt) (h : f.encode? cs = some a) : f.decode a = cs := by
  have hCanonical := IsCanonical.of_encode?_eq h
  obtain ⟨-, -, rfl⟩ := encode?_eq_some h
  apply List.ext_getElem (by rw [length_decode, hCanonical.length_eq])
  intro i hi hi'
  have hDegree : i < f.degree := hCanonical.length_eq ▸ hi'
  have hCoeff : cs.getD i 0 = cs[i] := by
    rw [List.getD_eq_getElem?_getD, List.getElem?_eq_getElem hi', Option.getD_some]
  have hLess := hCanonical.lt_modulus _ (List.getElem_mem hi')
  simp only [decode, List.getElem_map, List.getElem_range]
  rw [coeff_ofCoeffs hf _ hDegree, hCoeff, f.mont.decode_encode hLess]

theorem Reachable.isElement (hf : f.IsBuilt) (h : f.Reachable a) : f.IsElement a := by
  induction h with
  | zero => exact isElement_zero
  | one => exact isElement_one hf
  | ofWord w => exact isElement_ofWord hf w
  | encode h => exact isElement_of_encode?_eq h
  | add _ _ ha hb => exact isElement_add ha hb
  | sub _ _ ha hb => exact isElement_sub ha hb
  | neg _ ha => exact isElement_neg ha
  | double _ ha => exact isElement_double ha
  | mul _ _ ha _ => exact isElement_mul hf ha
  | sqr _ ha => exact isElement_sqr hf ha
  | pow _ exponent ha => exact isElement_pow hf ha exponent
  | inverse _ ha => exact isElement_inverse hf ha

/-- Every element with coefficients below the modulus is reached, by encoding what it decodes
to. -/
theorem reachable_iff (hf : f.IsBuilt) : f.Reachable a ↔ f.IsElement a :=
  ⟨Reachable.isElement hf, fun ha => .encode (encode?_decode hf ha)⟩

theorem encode?_eq_some_iff (hf : f.IsBuilt) :
    f.encode? cs = some a ↔ f.Reachable a ∧ f.decode a = cs := by
  constructor
  · intro h
    exact ⟨.encode h, decode_of_encode?_eq hf h⟩
  · rintro ⟨ha, rfl⟩
    exact encode?_decode hf (ha.isElement hf)

theorem bijOn_decode (hf : f.IsBuilt) :
    Set.BijOn f.decode {a | f.Reachable a} {cs | IsCanonical f.modulus.toNat f.degree cs} := by
  refine ⟨fun a ha => isCanonical_decode (ha.isElement hf), ?_, ?_⟩
  · intro a ha b hb h
    have hEncoded := encode?_decode hf (ha.isElement hf)
    rw [h, encode?_decode hf (hb.isElement hf)] at hEncoded
    exact (Option.some.inj hEncoded).symm
  · intro cs hcs
    have hEncoded := hcs.encode?_eq
    exact ⟨_, .encode hEncoded, decode_of_encode?_eq hf hEncoded⟩

end NybergRueppel.CoordinateField
