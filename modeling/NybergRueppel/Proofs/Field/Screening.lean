import Mathlib.Algebra.Polynomial.SpecificDegree
import NybergRueppel.Proofs.Field.Construction

/-!
What the screening of polynomials decides. A polynomial is refused only for a root, which no
irreducible polynomial of an extension has. Over a small prime every root of a polynomial of degree
two or three is found, and there a polynomial without a root is irreducible.
-/
namespace NybergRueppel.CoordinateField

open Finset Polynomial

variable {n : Nat} {prime : FixedNat n} {coeffs : List (FixedNat n)}

/-- The numbers of an extension of a prime field, whose polynomial may be reducible. -/
structure IsExtensionOf (prime : FixedNat n) (coeffs : List (FixedNat n)) : Prop where
  prime_toNat : prime.toNat.Prime
  odd : prime.toNat % 2 = 1
  two_le_length : 2 ≤ coeffs.length
  length_le : coeffs.length ≤ maxExtensionDegree
  reduced : ∀ c ∈ coeffs, c.toNat < prime.toNat

/-- The value at zero is the constant coefficient. -/
theorem eval_zero_monicPolynomial {p : Nat} (hLength : 1 ≤ coeffs.length) :
    (monicPolynomial p coeffs).eval 0 = ((coeffs.getD 0 0).toNat : ZMod p) := by
  have hZero : 0 ∈ range coeffs.length := mem_range.mpr hLength
  rw [monicPolynomial, lowPolynomial, eval_add, eval_finsetSum, sum_eq_single_of_mem 0 hZero]
  · simp [Nat.ne_of_gt hLength]
  · intro i _ hi
    simp [hi]

theorem monic_monicPolynomial (p : Nat) (coeffs : List (FixedNat n)) :
    (monicPolynomial p coeffs).Monic :=
  monic_X_pow_add (degree_sum_lt coeffs.length _)

theorem natDegree_monicPolynomial (p : Nat) [Nontrivial (ZMod p)] (coeffs : List (FixedNat n)) :
    (monicPolynomial p coeffs).natDegree = coeffs.length :=
  natDegree_eq_of_degree_eq_some (degree_X_pow_add_sum coeffs.length _)

section Screening

variable (h : IsExtensionOf prime coeffs)

include h

/-- Only the tests for reducibility are left to refuse the numbers of an extension. -/
theorem IsExtensionOf.ofPolynomial_eq :
    ∃ f, build prime coeffs.length coeffs = .ok f ∧ ofPolynomial prime coeffs =
      if f.isReducible then .error (.invalidField .reduciblePolynomial) else .ok f := by
  have hPrime := h.prime_toNat.two_le
  have hOdd := h.odd
  have hLower := h.two_le_length
  have hUpper := h.length_le
  have hPositive : 1 ≤ coeffs.length := by omega
  have hDegree : ¬(coeffs.length < 2 ∨ maxExtensionDegree < coeffs.length) := by omega
  obtain ⟨hBad, -⟩ | ⟨-, ⟨hBad, -⟩ | ⟨-, f, hBuild⟩⟩ := build_cases prime hPositive coeffs
  · exact absurd ⟨hOdd, by omega⟩ hBad
  · exact absurd h.reduced hBad
  · refine ⟨f, hBuild, ?_⟩
    rw [ofPolynomial, if_neg hDegree, hBuild]

/-- A polynomial is accepted exactly if it has a constant term and, where roots are searched for,
no root. -/
theorem IsExtensionOf.exists_ofPolynomial_eq_ok_iff :
    (∃ f, ofPolynomial prime coeffs = .ok f) ↔
      coeffs.getD 0 0 ≠ 0 ∧ ¬(coeffs.length ≤ 3 ∧ prime.toNat < 2 ^ 16 ∧
        ∃ x, (monicPolynomial prime.toNat coeffs).IsRoot x) := by
  have hLower := h.two_le_length
  obtain ⟨f, hBuild, hEq⟩ := h.ofPolynomial_eq
  have hReducible := isReducible_of_build_eq_iff (by omega) h.length_le h.reduced hBuild
  rw [← not_or, hEq]
  refine Iff.trans ?_ (not_congr hReducible)
  split <;> rename_i hFound
  · exact iff_of_false (fun ⟨_, hOk⟩ => by cases hOk) (not_not_intro hFound)
  · exact iff_of_true ⟨f, rfl⟩ hFound

/-- What is refused has a root, so that an irreducible polynomial is accepted. -/
theorem IsExtensionOf.exists_ofPolynomial_eq_ok
    (hIrreducible : Irreducible (monicPolynomial prime.toNat coeffs)) :
    ∃ f, ofPolynomial prime coeffs = .ok f := by
  have : Fact prime.toNat.Prime := ⟨h.prime_toNat⟩
  have hLower := h.two_le_length
  have hNoRoot (x : ZMod prime.toNat) : ¬(monicPolynomial prime.toNat coeffs).IsRoot x := by
    apply hIrreducible.not_isRoot_of_natDegree_ne_one
    rw [natDegree_monicPolynomial]
    omega
  -- Without a constant term zero would be a root.
  refine h.exists_ofPolynomial_eq_ok_iff.mpr ⟨fun hConstant => hNoRoot 0 ?_, ?_⟩
  · rw [IsRoot.def, eval_zero_monicPolynomial (by omega), hConstant, FixedNat.toNat_zero,
      Nat.cast_zero]
  · rintro ⟨-, -, x, hRoot⟩
    exact hNoRoot x hRoot

/-- In degree two and three over a small prime, a polynomial that is accepted is irreducible. -/
theorem IsExtensionOf.irreducible_of_ofPolynomial_eq (hSmall : prime.toNat < 2 ^ 16)
    (hDegree : coeffs.length ≤ 3) {f : CoordinateField n}
    (hAccepted : ofPolynomial prime coeffs = .ok f) :
    Irreducible (monicPolynomial prime.toNat coeffs) := by
  have : Fact prime.toNat.Prime := ⟨h.prime_toNat⟩
  have hMonic := monic_monicPolynomial prime.toNat coeffs
  have hNatDegree := natDegree_monicPolynomial prime.toNat coeffs
  have hRoots := (h.exists_ofPolynomial_eq_ok_iff.mp ⟨f, hAccepted⟩).2
  rw [hMonic.irreducible_iff_roots_eq_zero_of_degree_le_three (hNatDegree ▸ h.two_le_length)
    (hNatDegree ▸ hDegree), Multiset.eq_zero_iff_forall_notMem]
  intro x hx
  exact hRoots ⟨hDegree, hSmall, x, (mem_roots hMonic.ne_zero).mp hx⟩

end Screening

/-- An irreducible polynomial is never refused. In degree two and three over a small prime no other
is accepted. What is refused is refused as reducible. -/
theorem ofPolynomial_screens (h : IsExtensionOf prime coeffs) :
    (Irreducible (monicPolynomial prime.toNat coeffs) → ∃ f, ofPolynomial prime coeffs = .ok f) ∧
      (prime.toNat < 2 ^ 16 → coeffs.length ≤ 3 → (∃ f, ofPolynomial prime coeffs = .ok f) →
        Irreducible (monicPolynomial prime.toNat coeffs)) ∧
      ((∃ f, ofPolynomial prime coeffs = .ok f) ∨
        ofPolynomial prime coeffs = .error (.invalidField .reduciblePolynomial)) := by
  refine ⟨h.exists_ofPolynomial_eq_ok, ?_, ?_⟩
  · rintro hSmall hDegree ⟨f, hAccepted⟩
    exact h.irreducible_of_ofPolynomial_eq hSmall hDegree hAccepted
  · obtain ⟨f, -, hEq⟩ := h.ofPolynomial_eq
    rw [hEq]
    split
    · exact .inr rfl
    · exact .inl ⟨f, rfl⟩

theorem isExtensionOf_seven {c : UInt64} (hc : c.toNat < 7) :
    IsExtensionOf (.ofWord 7 : FixedNat 1) [.ofWord c, 0] := by
  have hSeven : (.ofWord 7 : FixedNat 1).toNat = 7 := rfl
  have hUpper : 2 ≤ maxExtensionDegree := by decide
  refine ⟨hSeven ▸ Nat.prime_seven, by decide, Nat.le_refl 2, hUpper, ?_⟩
  intro d hd
  rw [List.mem_pair] at hd
  obtain rfl | rfl := hd
  · rwa [FixedNat.toNat_ofWord Nat.one_pos]
  · decide

theorem isSome_ofPolynomial_seven :
    (ofPolynomial (.ofWord 7 : FixedNat 1) [.ofWord 1, 0]).toOption.isSome = true := by
  decide +kernel

/-- Modulo 7 the square of no number is -1, while 1 and 6 are roots of `x ^ 2 + 6`. -/
theorem ofPolynomial_screens_seven :
    let seven : FixedNat 1 := .ofWord 7
    IsExtensionOf seven [.ofWord 1, 0] ∧ IsExtensionOf seven [.ofWord 6, 0] ∧
      Irreducible (monicPolynomial seven.toNat [(.ofWord 1 : FixedNat 1), 0]) ∧
      ¬Irreducible (monicPolynomial seven.toNat [(.ofWord 6 : FixedNat 1), 0]) := by
  intro seven
  have hSum := isExtensionOf_seven (c := 1) (by decide)
  have hDifference := isExtensionOf_seven (c := 6) (by decide)
  refine ⟨hSum, hDifference, ?_, fun hIrreducible => ?_⟩
  · exact (ofPolynomial_screens hSum).2.1 (by decide) (by decide)
      ⟨_, eq_ok_get_toOption isSome_ofPolynomial_seven⟩
  · have hRefused : (ofPolynomial seven [.ofWord 6, 0]).toOption.isSome = false := by
      decide +kernel
    obtain ⟨f, hAccepted⟩ := (ofPolynomial_screens hDifference).1 hIrreducible
    rw [hAccepted] at hRefused
    cases hRefused

end NybergRueppel.CoordinateField
