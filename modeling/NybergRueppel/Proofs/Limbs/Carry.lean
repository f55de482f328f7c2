import Mathlib.Tactic.LinearCombination
import NybergRueppel.Proofs.Limbs.Value

/-!
Carry chains. Each chain hands the part of a digit that does not fit to the next digit, and returns
what leaves the top. Its equation between numbers follows from the equation of one word by induction
on the digits: the part that leaves one word is the incoming part of the rest.
-/
namespace NybergRueppel.Limbs

open Word

theorem toNat_addCarry {xs ys : List UInt64} (hLength : xs.length = ys.length) (carry : Bool) :
    toNat (addCarry xs ys carry).1 + base ^ xs.length * (addCarry xs ys carry).2.toNat =
      toNat xs + toNat ys + carry.toNat := by
  induction xs generalizing ys carry with
  | nil =>
      rw [List.eq_nil_of_length_eq_zero hLength.symm]
      simp [addCarry]
  | cons x xs ih =>
      cases ys with
      | nil => simp at hLength
      | cons y ys =>
          have hWord := Word.toNat_addCarry x y carry
          have hRest := ih (Nat.succ.inj hLength) (Word.addCarry x y carry).2
          simp only [addCarry, toNat_cons, List.length_cons, pow_succ]
          linear_combination hWord + base * hRest

theorem toNat_subBorrow {xs ys : List UInt64} (hLength : xs.length = ys.length) (borrow : Bool) :
    toNat (subBorrow xs ys borrow).1 + toNat ys + borrow.toNat =
      toNat xs + base ^ xs.length * (subBorrow xs ys borrow).2.toNat := by
  induction xs generalizing ys borrow with
  | nil =>
      rw [List.eq_nil_of_length_eq_zero hLength.symm]
      simp [subBorrow]
  | cons x xs ih =>
      cases ys with
      | nil => simp at hLength
      | cons y ys =>
          have hWord := Word.toNat_subBorrow x y borrow
          have hRest := ih (Nat.succ.inj hLength) (Word.subBorrow x y borrow).2
          simp only [subBorrow, toNat_cons, List.length_cons, pow_succ]
          linear_combination hWord + base * hRest

/-- A row of a product: `w` times one number is added to another, and the word that leaves the top
makes the equation exact. -/
theorem toNat_mulAdd (w : UInt64) {ts as : List UInt64} (hLength : ts.length = as.length)
    (carry : UInt64) :
    toNat (mulAdd w ts as carry).1 + base ^ ts.length * (mulAdd w ts as carry).2.toNat =
      toNat ts + w.toNat * toNat as + carry.toNat := by
  induction ts generalizing as carry with
  | nil =>
      rw [List.eq_nil_of_length_eq_zero hLength.symm]
      simp [mulAdd]
  | cons t ts ih =>
      cases as with
      | nil => simp at hLength
      | cons a as =>
          have hWord := Word.toNat_mulAdd t a w carry
          have hRest := ih (Nat.succ.inj hLength) (Word.mulAdd t a w carry).high
          rw [Double.toNat] at hWord
          simp only [mulAdd, toNat_cons, List.length_cons, pow_succ]
          linear_combination hWord + base * hRest

theorem toNat_double (xs : List UInt64) (bit : Bool) :
    toNat (double xs bit).1 + base ^ xs.length * (double xs bit).2.toNat =
      2 * toNat xs + bit.toNat := by
  induction xs generalizing bit with
  | nil => simp [double]
  | cons x xs ih =>
      have hWord := Word.toNat_double x bit
      have hRest := ih (Word.testBit x 63)
      simp only [double, toNat_cons, List.length_cons, pow_succ]
      linear_combination hWord + base * hRest

/-- A row leaves its lowest word behind, and the words above it make the next window. -/
theorem exists_mulRows_cons {bs window : List UInt64} (hLength : window.length = bs.length)
    (a : UInt64) (as : List UInt64) :
    ∃ low next, (mulAdd a window bs 0).1 ++ [(mulAdd a window bs 0).2] = low :: next ∧
      next.length = bs.length ∧ mulRows bs (a :: as) window = low :: mulRows bs as next := by
  have hRow := length_mulAdd a window bs 0
  rw [mulRows]
  generalize mulAdd a window bs 0 = step at hRow
  obtain ⟨row, carry⟩ := step
  dsimp only at hRow ⊢
  cases hWindow : row ++ [carry] with
  | nil => simp at hWindow
  | cons low next =>
      have hTotal := congrArg List.length hWindow
      simp only [List.length_append, List.length_cons, List.length_nil] at hTotal
      exact ⟨low, next, rfl, by omega, rfl⟩

/-- The rows of a product, each added to a window that then moves up by one word. -/
theorem toNat_mulRows {bs window : List UInt64} (as : List UInt64)
    (hLength : window.length = bs.length) :
    toNat (mulRows bs as window) = toNat as * toNat bs + toNat window := by
  induction as generalizing window with
  | nil => simp [mulRows]
  | cons a as ih =>
      obtain ⟨low, next, hWindow, hNext, hRows⟩ := exists_mulRows_cons hLength a as
      have hRow := toNat_mulAdd a hLength 0
      have hJoined := congrArg toNat hWindow
      rw [toNat_append, toNat_cons, toNat_cons, toNat_nil, length_mulAdd, hLength,
        Nat.min_self] at hJoined
      rw [hLength, show (0 : UInt64).toNat = 0 from rfl] at hRow
      rw [hRows, toNat_cons, ih hNext, toNat_cons]
      linear_combination hRow - hJoined

theorem length_mulRows {bs window : List UInt64} (as : List UInt64)
    (hLength : window.length = bs.length) :
    (mulRows bs as window).length = as.length + bs.length := by
  induction as generalizing window with
  | nil => rw [mulRows, hLength, List.length_nil, Nat.zero_add]
  | cons a as ih =>
      obtain ⟨low, next, -, hNext, hRows⟩ := exists_mulRows_cons hLength a as
      rw [hRows, List.length_cons, ih hNext, List.length_cons, Nat.add_right_comm]

theorem length_mul (as bs : List UInt64) : (mul as bs).length = as.length + bs.length :=
  length_mulRows as (List.length_map _)

theorem toNat_mul (as bs : List UInt64) : toNat (mul as bs) = toNat as * toNat bs := by
  rw [mul, toNat_mulRows as (by simp), toNat_map_zero, Nat.add_zero]

theorem length_subWord (xs : List UInt64) (w : UInt64) : (subWord xs w).1.length = xs.length := by
  induction xs generalizing w with
  | nil => rfl
  | cons x xs ih => simp [subWord, ih]

/-- What is still to be taken away at the top is one or nothing once a limb has been passed. -/
theorem toNat_subWord (xs : List UInt64) (w : UInt64) :
    toNat (subWord xs w).1 + w.toNat = toNat xs + base ^ xs.length * (subWord xs w).2.toNat := by
  induction xs generalizing w with
  | nil => simp [subWord]
  | cons x xs ih =>
      have hRest := ih (if x < w then 1 else 0)
      have hWord : (x - w).toNat + w.toNat =
          x.toNat + base * (if x < w then (1 : UInt64) else 0).toNat := by
        have hx := x.toNat_lt
        have hw := w.toNat_lt
        rw [UInt64.toNat_sub, base_eq]
        split <;> rename_i hBorrow <;> rw [UInt64.lt_iff_toNat_lt] at hBorrow
        · rw [show (1 : UInt64).toNat = 1 from rfl]
          omega
        · rw [show (0 : UInt64).toNat = 0 from rfl]
          omega
      simp only [subWord, toNat_cons, List.length_cons, pow_succ]
      linear_combination hWord + base * hRest

end NybergRueppel.Limbs
