import NybergRueppel.Montgomery
import NybergRueppel.Proofs.Limbs.Bits

/-!
Powers by repeated squaring. The exponent is read bit by bit, the lowest first, so that its number
is the number of all its limbs. What is squared may be anything with a product whose meaning is one
of a monoid.
-/
namespace NybergRueppel

variable {α M : Type} [Monoid M] {mul : α → α → α} {P : α → Prop} {v : α → M}

/-- Repeated squaring keeps what the product keeps. -/
theorem powBits_closed (hClosed : ∀ a b, P a → P b → P (mul a b)) (bits : List Bool) {a b : α}
    (ha : P a) (hb : P b) : P (powBits mul bits a b) := by
  induction bits generalizing a b with
  | nil => exact ha
  | cons bit bits ih =>
      rw [powBits]
      have hSquare := hClosed b b hb hb
      cases bit with
      | false => exact ih ha hSquare
      | true => exact ih (hClosed a b ha hb) hSquare

/-- Repeated squaring gives a power wherever the product means a product. The condition `P` is one
that the product keeps and that its meaning may rely on. -/
theorem map_powBits (hClosed : ∀ a b, P a → P b → P (mul a b))
    (hMul : ∀ a b, P a → P b → v (mul a b) = v a * v b) (bits : List Bool) {a b : α}
    (ha : P a) (hb : P b) :
    v (powBits mul bits a b) = v a * v b ^ Nat.ofDigits 2 (bits.map Bool.toNat) := by
  induction bits generalizing a b with
  | nil => simp [powBits]
  | cons bit bits ih =>
      rw [powBits, List.map_cons, Nat.ofDigits_cons, pow_add, pow_mul, pow_two,
        ← hMul b b hb hb]
      have hSquare := hClosed b b hb hb
      cases bit with
      | false =>
          rw [Bool.toNat_false, pow_zero, one_mul]
          exact ih ha hSquare
      | true =>
          rw [Bool.toNat_true, pow_one, ← mul_assoc, ← hMul a b ha hb]
          exact ih (hClosed a b ha hb) hSquare

/-- Zeros above an exponent do not change the power. -/
theorem powBits_append_of_false (mul : α → α → α) (bits : List Bool) {zeros : List Bool}
    (hZeros : ∀ bit ∈ zeros, bit = false) (a b : α) :
    powBits mul (bits ++ zeros) a b = powBits mul bits a b := by
  induction bits generalizing a b with
  | nil =>
      rw [List.nil_append]
      induction zeros generalizing b with
      | nil => rfl
      | cons bit zeros ih =>
          rw [List.forall_mem_cons] at hZeros
          obtain ⟨rfl, hZeros⟩ := hZeros
          exact ih hZeros (mul b b)
  | cons bit bits ih => exact ih _ _

/-- Limbs of zero above an exponent do not change the power. -/
theorem powBits_append_zeros (mul : α → α → α) (exponent : List UInt64) (count : Nat) (a b : α) :
    powBits mul (Limbs.bits (exponent ++ List.replicate count 0)) a b =
      powBits mul (Limbs.bits exponent) a b := by
  have hZeros : ∀ bit ∈ Limbs.bits (List.replicate count 0), bit = false := by
    intro bit hBit
    obtain ⟨w, hw, hBit⟩ := List.mem_flatMap.mp hBit
    rw [List.eq_of_mem_replicate hw] at hBit
    exact (by decide : ∀ bit ∈ Word.bits 0, bit = false) bit hBit
  have hSplit : Limbs.bits (exponent ++ List.replicate count 0) =
      Limbs.bits exponent ++ Limbs.bits (List.replicate count 0) := List.flatMap_append
  rw [hSplit, powBits_append_of_false mul _ hZeros]

/-- Only the number of an exponent decides the power. -/
theorem powBits_eq_of_toNat_eq (mul : α → α → α) {xs ys : List UInt64}
    (h : Limbs.toNat xs = Limbs.toNat ys) (a b : α) :
    powBits mul (Limbs.bits xs) a b = powBits mul (Limbs.bits ys) a b := by
  have hSame : xs ++ List.replicate ys.length 0 = ys ++ List.replicate xs.length 0 := by
    apply Limbs.eq_of_toNat_eq
    · rw [List.length_append, List.length_append, List.length_replicate, List.length_replicate,
        Nat.add_comm]
    · rw [Limbs.toNat_append, Limbs.toNat_append, Limbs.toNat_replicate_zero,
        Limbs.toNat_replicate_zero, Nat.mul_zero, Nat.mul_zero, h]
  rw [← powBits_append_zeros mul xs ys.length, hSame, powBits_append_zeros]

end NybergRueppel
