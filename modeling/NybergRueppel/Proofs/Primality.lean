import Mathlib.Data.List.Prime
import Mathlib.FieldTheory.Finite.Basic
import NybergRueppel.Proofs.RepeatedSquaring

/-!
Certificates of primality by Pocklington's criterion. It asks for prime factors of the number less
one only until their product exceeds the square root, so that the certificates of numbers of 256
bits are short, and checking them takes a few modular powers.
-/
namespace NybergRueppel

/-- Pocklington's criterion. An element whose power by `n - 1` is one, while its powers by
`(n - 1) / q` differ from one modulo every prime factor of `n`, has modulo each of these a power of
the exact order `F`; so that every prime factor exceeds `F`. -/
theorem prime_of_orders {n F : Nat} {a : ZMod n} (hOne : 1 < n) (hDvd : F ∣ n - 1)
    (hLarge : n < F ^ 2) (hPow : a ^ (n - 1) = 1)
    (hUnit : ∀ q : Nat, q.Prime → q ∣ F → IsUnit (a ^ ((n - 1) / q) - 1)) : n.Prime := by
  by_contra hNot
  let r := n.minFac
  have : Fact r.Prime := ⟨Nat.minFac_prime hOne.ne'⟩
  have hSquare : r ^ 2 ≤ n := Nat.minFac_sq_le_self (by omega) hNot
  have hF : 0 < F := Nat.pos_of_ne_zero fun hZero => by simp [hZero] at hLarge
  let reduce : ZMod n →+* ZMod r := ZMod.castHom (Nat.minFac_dvd n) (ZMod r)
  -- The power has the order `F` modulo the least prime factor, whose units are too few otherwise.
  let b := reduce a ^ ((n - 1) / F)
  have hPowB : b ^ F = 1 := by
    rw [← pow_mul, Nat.div_mul_cancel hDvd, ← map_pow, hPow, map_one]
  have hPowDiv (q : Nat) (hq : q.Prime) (hqF : q ∣ F) : b ^ (F / q) ≠ 1 := by
    have hExponent : (n - 1) / F * (F / q) = (n - 1) / q := by
      rw [← Nat.mul_div_assoc _ hqF, Nat.div_mul_cancel hDvd]
    have hNonzero := ((hUnit q hq hqF).map reduce).ne_zero
    rwa [map_sub, map_pow, map_one, sub_ne_zero, ← hExponent, pow_mul] at hNonzero
  have hOrder : orderOf b = F := orderOf_eq_of_pow_and_pow_div_prime hF hPowB hPowDiv
  have hNonzero : b ≠ 0 := by
    intro hZero
    rw [hZero, zero_pow hF.ne'] at hPowB
    exact zero_ne_one hPowB
  have hLess : F < r := by
    have hDivides : F ∣ r - 1 := hOrder ▸ ZMod.orderOf_dvd_card_sub_one hNonzero
    have hTwo : 2 ≤ r := (Fact.out : r.Prime).two_le
    have := Nat.le_of_dvd (by omega) hDivides
    omega
  exact absurd (hLarge.trans (Nat.pow_lt_pow_left hLess two_ne_zero)) (Nat.not_lt.mpr hSquare)

/-- The residue of a power with an exponent of at most 256 bits. -/
def powMod (modulus base exponent : Nat) : Nat :=
  powBits (fun a b => a * b % modulus) ((List.range 256).map exponent.testBit) 1 base

theorem natCast_powMod {modulus exponent : Nat} (base : Nat) (h : exponent < 2 ^ 256) :
    (powMod modulus base exponent : ZMod modulus) = (base : ZMod modulus) ^ exponent := by
  let mul (a b : Nat) : Nat := a * b % modulus
  let residue (a : Nat) : ZMod modulus := a
  have hMul (a b : Nat) : residue (mul a b) = residue a * residue b :=
    (ZMod.natCast_mod (a * b) modulus).trans (Nat.cast_mul a b)
  have hPower := map_powBits (P := fun _ => True) (fun _ _ _ _ => trivial)
    (fun a b _ _ => hMul a b) ((List.range 256).map exponent.testBit) (a := 1) (b := base) trivial
    trivial
  rw [Limbs.ofDigits_testBit, Nat.mod_eq_of_lt h, show residue 1 = 1 from Nat.cast_one,
    one_mul] at hPower
  exact hPower

/-- A claim that a number is prime: a base for the powers, and some prime factors of the number
less one, each as often as it is used. -/
structure PrimeCertificate where
  number : Nat
  base : Nat
  factors : List Nat

namespace PrimeCertificate

/-- The product of the listed factors divides the number less one, its square exceeds the number,
and the powers of the base are those of Pocklington's criterion. -/
def check (c : PrimeCertificate) : Bool :=
  1 < c.number && c.number < 2 ^ 256 &&
    c.factors.prod ∣ c.number - 1 && c.number < c.factors.prod ^ 2 &&
    powMod c.number c.base (c.number - 1) == 1 &&
    c.factors.all fun q =>
      (powMod c.number c.base ((c.number - 1) / q) + (c.number - 1)).Coprime c.number

theorem prime_of_check {c : PrimeCertificate} (hFactors : ∀ q ∈ c.factors, q.Prime)
    (h : c.check = true) : c.number.Prime := by
  simp only [check, Bool.and_eq_true, decide_eq_true_eq, beq_iff_eq, List.all_eq_true] at h
  obtain ⟨⟨⟨⟨⟨hOne, hSmall⟩, hDvd⟩, hLarge⟩, hPow⟩, hCoprime⟩ := h
  have hPower {exponent : Nat} (hLe : exponent ≤ c.number - 1) :
      (powMod c.number c.base exponent : ZMod c.number) = (c.base : ZMod c.number) ^ exponent :=
    natCast_powMod c.base (by omega)
  apply prime_of_orders (a := (c.base : ZMod c.number)) hOne hDvd hLarge
  · rw [← hPower (Nat.le_refl _), hPow, Nat.cast_one]
  · intro q hq hqProduct
    have hListed : q ∈ c.factors := by
      obtain ⟨q', hMember, hDivides⟩ := (hq.prime.dvd_prod_iff).mp hqProduct
      rwa [(Nat.prime_dvd_prime_iff_eq hq (hFactors q' hMember)).mp hDivides]
    have hUnit := (ZMod.isUnit_iff_coprime _ _).mpr (hCoprime q hListed)
    rwa [Nat.cast_add, hPower (Nat.div_le_self _ _), Nat.cast_sub hOne.le, ZMod.natCast_self,
      Nat.cast_one, zero_sub, ← sub_eq_add_neg] at hUnit

/-- Checks certificates in order. The factors have to be primes that are known or that a certificate
before has shown. -/
def checkAll (known : List Nat) : List PrimeCertificate → Bool
  | [] => true
  | c :: cs => c.factors.all known.contains && c.check && checkAll (c.number :: known) cs

theorem prime_of_checkAll {known : List Nat} {cs : List PrimeCertificate}
    (hKnown : ∀ q ∈ known, q.Prime) (h : checkAll known cs = true) :
    ∀ k ∈ cs.map number, k.Prime := by
  induction cs generalizing known with
  | nil => exact fun k hk => absurd hk List.not_mem_nil
  | cons c cs ih =>
      simp only [checkAll, Bool.and_eq_true, List.all_eq_true, List.contains_iff_mem] at h
      obtain ⟨⟨hFactors, hCheck⟩, hRest⟩ := h
      have hPrime : c.number.Prime :=
        prime_of_check (fun q hq => hKnown q (hFactors q hq)) hCheck
      rw [List.map_cons, List.forall_mem_cons]
      exact ⟨hPrime, ih (List.forall_mem_cons.mpr ⟨hPrime, hKnown⟩) hRest⟩

end PrimeCertificate

end NybergRueppel
