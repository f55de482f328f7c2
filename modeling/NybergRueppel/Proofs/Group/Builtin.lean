import Mathlib.Tactic.NormNum.Prime
import NybergRueppel.Proofs.Curve.ResiduePoint
import NybergRueppel.Proofs.Group.OfParameters
import NybergRueppel.Proofs.Primality

/-!
The built-in groups. Their coordinates form a prime field, and the order that is written is a prime
and the exact order of the base point.
-/
namespace NybergRueppel

namespace CurveNumbers

/-- The predecessor of the order takes the base point to its opposite. -/
def closes (v : CurveNumbers) : Bool :=
  let g : ResiduePoint := ⟨v.x, v.y, 1⟩
  (g.multiple v.prime v.a (ResiduePoint.lowerBits (v.order - 1))).isOpposite v.prime g

/-- The numbers make a group whose base point has the order. -/
structure IsCertified (v : CurveNumbers) : Prop where
  prime : v.prime.Prime
  order : v.order.Prime
  closes_eq : v.closes = true

end CurveNumbers

/-- Primes that the certificates start from. -/
def smallPrimes : List Nat :=
  [2, 3, 11, 43, 59, 127, 373, 1627, 2657, 3023, 3769, 4051, 4423, 16699, 17449, 18169, 38189,
    41201, 78283, 85831, 96557, 120233]

theorem prime_of_mem_smallPrimes : ∀ q ∈ smallPrimes, q.Prime := by
  simp only [smallPrimes, List.forall_mem_cons]
  norm_num

/-- The primes and orders of the built-in curves, after the primes that their certificates use. -/
def certificates : List PrimeCertificate :=
  [ ⟨204061199, 3, [11, 3769]⟩,
    ⟨34282281433, 2, [204061199]⟩,
    ⟨46076956964474543, 2, [18169, 78283]⟩,
    ⟨107361793816595537, 2, [16699, 85831]⟩,
    ⟨208150935158385979, 2, [3, 11, 43, 127, 3023]⟩,
    ⟨174723607534414371449, 2, [59, 4051, 120233]⟩,
    ⟨2624747550333869278416773953, 2, [208150935158385979]⟩,
    ⟨255515944373312847190720520512484175977, 2, [1627, 2657, 4423, 41201, 96557]⟩,
    ⟨774023187263532362759620327192479577272145303, 2, [34282281433, 46076956964474543]⟩,
    ⟨835945042244614951780389953367877943453916927241, 2,
      [774023187263532362759620327192479577272145303]⟩,
    ⟨205115282021455665897114700593932402728804164701536103180137503955397371, 2,
      [255515944373312847190720520512484175977]⟩,
    ⟨0xFFFFFFFF00000001000000000000000000000000FFFFFFFFFFFFFFFFFFFFFFFF, 2,
      [835945042244614951780389953367877943453916927241]⟩,
    ⟨0xFFFFFFFF00000000FFFFFFFFFFFFFFFFBCE6FAADA7179E84F3B9CAC2FC632551, 2,
      [373, 17449, 38189, 2624747550333869278416773953]⟩,
    ⟨0xFFFFFFFFFFFFFFFFFFFFFFFFFFFFFFFFFFFFFFFFFFFFFFFFFFFFFFFEFFFFFC2F, 2,
      [205115282021455665897114700593932402728804164701536103180137503955397371]⟩,
    ⟨0xFFFFFFFFFFFFFFFFFFFFFFFFFFFFFFFEBAAEDCE6AF48A03BBFD25E8CD0364141, 5,
      [2, 2, 2, 2, 2, 107361793816595537, 174723607534414371449]⟩ ]

theorem prime_of_mem_certificates : ∀ k ∈ certificates.map PrimeCertificate.number, k.Prime :=
  PrimeCertificate.prime_of_checkAll prime_of_mem_smallPrimes (by decide +kernel)

namespace CurveNumbers

def p256 : CurveNumbers where
  prime := 0xFFFFFFFF00000001000000000000000000000000FFFFFFFFFFFFFFFFFFFFFFFF
  a := 0xFFFFFFFF00000001000000000000000000000000FFFFFFFFFFFFFFFFFFFFFFFC
  x := 0x6B17D1F2E12C4247F8BCE6E563A440F277037D812DEB33A0F4A13945D898C296
  y := 0x4FE342E2FE1A7F9B8EE7EB4A7C0F9E162BCE33576B315ECECBB6406837BF51F5
  order := 0xFFFFFFFF00000000FFFFFFFFFFFFFFFFBCE6FAADA7179E84F3B9CAC2FC632551

def secp256k1 : CurveNumbers where
  prime := 0xFFFFFFFFFFFFFFFFFFFFFFFFFFFFFFFFFFFFFFFFFFFFFFFFFFFFFFFEFFFFFC2F
  a := 0
  x := 0x79BE667EF9DCBBAC55A06295CE870B07029BFCDB2DCE28D959F2815B16F81798
  y := 0x483ADA7726A3C4655DA4FBFC0E1108A8FD17B448A68554199C47D08FFB10D4B8
  order := 0xFFFFFFFFFFFFFFFFFFFFFFFFFFFFFFFEBAAEDCE6AF48A03BBFD25E8CD0364141

theorem writes_p256 : DomainParameters.p256.Writes 4 p256 :=
  ⟨rfl, by decide +kernel, by decide +kernel, by decide +kernel, by decide +kernel,
    by decide +kernel⟩

theorem writes_secp256k1 : DomainParameters.secp256k1.Writes 4 secp256k1 :=
  ⟨rfl, by decide +kernel, by decide +kernel, by decide +kernel, by decide +kernel,
    by decide +kernel⟩

theorem isCertified_p256 : p256.IsCertified where
  prime := prime_of_mem_certificates _ (by decide)
  order := prime_of_mem_certificates _ (by decide)
  closes_eq := by decide +kernel

theorem isCertified_secp256k1 : secp256k1.IsCertified where
  prime := prime_of_mem_certificates _ (by decide)
  order := prime_of_mem_certificates _ (by decide)
  closes_eq := by decide +kernel

end CurveNumbers

namespace CurveGroup

variable {n : Nat} {group : CurveGroup n} {v : CurveNumbers}

namespace OverPrimeField.HasNumbers

variable {h : group.OverPrimeField} (hNumbers : h.HasNumbers v)

include hNumbers

theorem xNumber_basePoint : h.xNumber h.basePoint = v.x := by
  obtain ⟨hNonsingular, hPoint⟩ := hNumbers.basePoint_eq
  rw [hPoint]
  exact h.isPrimeField.toNat_natCast (hNumbers.modulus_eq ▸ hNumbers.x_lt)

/-- A prime that takes a point other than zero to zero is its exact order. -/
theorem addOrderOf_basePoint (hCertified : v.IsCertified) :
    addOrderOf h.basePoint = group.order.modulus.toNat := by
  obtain ⟨hNonsingular, hPoint⟩ := hNumbers.basePoint_eq
  have : CharP h.isPrimeField.Residues v.prime := hNumbers.modulus_eq ▸ inferInstance
  have : Fact v.order.Prime := ⟨hCertified.order⟩
  have hTwo := hCertified.order.two_le
  have hOne : ((1 : Nat) : h.isPrimeField.Residues) ≠ 0 := by
    rw [Nat.cast_one]
    exact one_ne_zero
  have hClosed : (v.order - 1 + 1) • h.basePoint = 0 := by
    rw [hPoint]
    exact ResiduePoint.nsmul_eq_zero_of_isOpposite hCertified.prime.pos
      (Curve.two_ne_zero_of_realization h.isPrimeField.realization) hNumbers.a_eq
      ResiduePoint.stands_affine hOne (by omega) hCertified.closes_eq
  rw [hNumbers.order_eq]
  apply addOrderOf_eq_prime
  · rwa [Nat.sub_add_cancel (by omega)] at hClosed
  · rw [hPoint]
    exact WeierstrassCurve.Affine.Point.some_ne_zero hNonsingular

end OverPrimeField.HasNumbers

/-- There are two built-in parameter sets. -/
theorem eq_of_builtin?_eq_some {name : String} {p : DomainParameters}
    (h : DomainParameters.builtin? name = some p) : p = .p256 ∨ p = .secp256k1 := by
  rw [DomainParameters.builtin?] at h
  split at h
  · exact .inl (Option.some.inj h).symm
  · split at h
    · exact .inr (Option.some.inj h).symm
    · cases h

/-- The group is that of a built-in parameter set, with the width that its numbers take. -/
def IsBuiltin (group : CurveGroup 4) : Prop :=
  ∃ name p, DomainParameters.builtin? name = some p ∧ ofParameters 4 p = .ok group

namespace IsBuiltin

variable {group : CurveGroup 4} (h : group.IsBuiltin)

include h

theorem exists_numbers :
    ∃ v : CurveNumbers, v.IsCertified ∧ ∃ hOver : group.OverPrimeField, hOver.HasNumbers v := by
  obtain ⟨name, p, hBuiltin, hGroup⟩ := h
  rcases eq_of_builtin?_eq_some hBuiltin with rfl | rfl
  · exact ⟨.p256, CurveNumbers.isCertified_p256, overPrimeField_of_ofParameters
      CurveNumbers.writes_p256 CurveNumbers.isCertified_p256.prime hGroup⟩
  · exact ⟨.secp256k1, CurveNumbers.isCertified_secp256k1, overPrimeField_of_ofParameters
      CurveNumbers.writes_secp256k1 CurveNumbers.isCertified_secp256k1.prime hGroup⟩

theorem overPrimeField : group.OverPrimeField := by
  obtain ⟨-, -, hOver, -⟩ := h.exists_numbers
  exact hOver

/-- The order is the exact order of the base point. -/
theorem addOrderOf_basePoint :
    addOrderOf h.overPrimeField.basePoint = group.order.modulus.toNat := by
  obtain ⟨v, hCertified, hOver, hNumbers⟩ := h.exists_numbers
  exact hNumbers.addOrderOf_basePoint hCertified

end IsBuiltin

end CurveGroup

theorem isSome_p256Group :
    (CurveGroup.ofParameters 4 DomainParameters.p256).toOption.isSome = true := by
  decide +kernel

theorem isSome_secp256k1Group :
    (CurveGroup.ofParameters 4 DomainParameters.secp256k1).toOption.isSome = true := by
  decide +kernel

/-- Every built-in parameter set makes a group. -/
theorem CurveGroup.exists_isBuiltin {name : String} {p : DomainParameters}
    (h : DomainParameters.builtin? name = some p) :
    ∃ group : CurveGroup 4, ofParameters 4 p = .ok group ∧ group.IsBuiltin := by
  have hGroup : ∃ group : CurveGroup 4, ofParameters 4 p = .ok group := by
    rcases eq_of_builtin?_eq_some h with rfl | rfl
    · exact ⟨_, eq_ok_get_toOption isSome_p256Group⟩
    · exact ⟨_, eq_ok_get_toOption isSome_secp256k1Group⟩
  obtain ⟨group, hEq⟩ := hGroup
  exact ⟨group, hEq, name, p, h, hEq⟩

/-- The first built-in group. -/
def p256Group : CurveGroup 4 :=
  (CurveGroup.ofParameters 4 DomainParameters.p256).toOption.get isSome_p256Group

theorem isBuiltin_p256Group : p256Group.IsBuiltin :=
  ⟨"P-256", .p256, by decide +kernel, eq_ok_get_toOption isSome_p256Group⟩

theorem hasNumbers_p256Group : isBuiltin_p256Group.overPrimeField.HasNumbers .p256 := by
  obtain ⟨_, hNumbers⟩ := CurveGroup.overPrimeField_of_ofParameters CurveNumbers.writes_p256
    CurveNumbers.isCertified_p256.prime (eq_ok_get_toOption isSome_p256Group)
  exact hNumbers

end NybergRueppel
