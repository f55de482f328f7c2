import Mathlib.Data.Nat.ModEq
import NybergRueppel.Montgomery
import NybergRueppel.Proofs.FixedNat.Division

/-!
The Montgomery product. One step takes in a word of the second factor and divides the running sum by
the base; the multiple of the modulus that is added first makes the division exact. The sum stays
below twice the modulus, and a whole run multiplies by the second factor and divides by the radix.
-/
namespace NybergRueppel

open Word

/-- A Newton step squares the error `1 - a * x`, and with it every factor of the error. -/
theorem newtonStep_error {a x c t : UInt64} (h : 1 - a * x = c * t) :
    1 - a * newtonStep a x = c * c * (t * t) := by
  have hSquare : 1 - a * newtonStep a x = (1 - a * x) * (1 - a * x) := by
    rw [newtonStep]
    grind
  rw [hSquare, h]
  grind

theorem exists_one_sub_eq {a : UInt64} (ha : a.toNat % 2 = 1) :
    ∃ t : UInt64, 1 - a * 1 = 2 * t := by
  have hSplit : a = (2 : UInt64) * (a >>> 1) + 1 := by
    have h := a.toNat_lt
    rw [← UInt64.toNat_inj, UInt64.toNat_add, UInt64.toNat_mul, UInt64.toNat_shiftRight,
      show (1 : UInt64).toNat % 64 = 1 from rfl, Nat.shiftRight_eq_div_pow,
      show (1 : UInt64).toNat = 1 from rfl, show (2 : UInt64).toNat = 2 from rfl]
    omega
  refine ⟨(0 : UInt64) - (a >>> 1), ?_⟩
  generalize a >>> 1 = half at hSplit
  subst hSplit
  grind

/-- The factor of the error is squared by every step. As words, the factors from the sixth step on
are zero. -/
theorem exists_newton_error {a : UInt64} (ha : a.toNat % 2 = 1) (k : Nat) :
    ∃ t : UInt64, 1 - a * (newtonStep a)^[k] 1 = UInt64.ofNat (2 ^ 2 ^ k) * t := by
  induction k with
  | zero => exact exists_one_sub_eq ha
  | succ k ih =>
      obtain ⟨t, ht⟩ := ih
      have hFactor : UInt64.ofNat (2 ^ 2 ^ (k + 1)) =
          UInt64.ofNat (2 ^ 2 ^ k) * UInt64.ofNat (2 ^ 2 ^ k) := by
        rw [← UInt64.ofNat_mul, ← pow_add, ← Nat.two_mul, pow_succ']
      refine ⟨t * t, ?_⟩
      rw [Function.iterate_succ_apply', newtonStep_error ht, hFactor]

/-- Six steps turn the factor `2` of the first error into `2 ^ 64`, which is zero as a word. -/
theorem mul_inverseWord {a : UInt64} (ha : a.toNat % 2 = 1) : a * inverseWord a = 1 := by
  obtain ⟨t, ht⟩ := exists_newton_error ha 6
  change 1 - a * inverseWord a = 0 * t at ht
  grind

namespace MontgomerySum

/-- The number that a running sum stands for. -/
def toNat (sum : MontgomerySum) : Nat :=
  Limbs.toNat sum.words + base ^ sum.words.length * sum.top.toNat

theorem toNat_zero (n : Nat) : toNat { words := (0 : FixedNat n).limbs, top := 0 } = 0 := by
  have hWords : Limbs.toNat (0 : FixedNat n).limbs = 0 := FixedNat.toNat_zero
  rw [toNat, hWords]
  rfl

theorem toNat_addRow {a : List UInt64} {sum : MontgomerySum} (word : UInt64)
    (hLength : sum.words.length = a.length) :
    (sum.addRow a word).1.toNat + base ^ (a.length + 1) * (sum.addRow a word).2.toNat =
        sum.toNat + word.toNat * Limbs.toNat a ∧
      (sum.addRow a word).1.words.length = a.length := by
  have hRow := Limbs.toNat_mulAdd word hLength 0
  have hRowLength := Limbs.length_mulAdd word sum.words a 0
  rw [hLength, Nat.min_self] at hRowLength
  rw [hLength] at hRow
  generalize hStep : Limbs.mulAdd word sum.words a 0 = step at hRow hRowLength
  obtain ⟨row, carry⟩ := step
  have hTop := Word.toNat_addCarry sum.top carry false
  simp only at hRow hRowLength
  rw [show (0 : UInt64).toNat = 0 from rfl] at hRow
  rw [Bool.toNat_false] at hTop
  simp only [addRow, hStep, toNat, hRowLength, hLength]
  refine ⟨?_, trivial⟩
  rw [pow_succ]
  linear_combination hRow + base ^ a.length * hTop

/-- The factor of the modulus is chosen so that the lowest word of the sum becomes zero. -/
theorem base_dvd_of_negInv {m negInv : UInt64} (w : UInt64) (hInverse : m * negInv = -1) :
    base ∣ w.toNat + (w * negInv).toNat * m.toNat := by
  have hZero : w + w * negInv * m = 0 := by grind
  have hWord := congrArg UInt64.toNat hZero
  rw [UInt64.toNat_add, UInt64.toNat_mul (w * negInv), Nat.add_mod_mod,
    show (0 : UInt64).toNat = 0 from rfl] at hWord
  exact Nat.dvd_of_mod_eq_zero hWord

/-- A row with the right factor of the modulus starts with a zero word, and what is above that word
is the sum divided by the base. -/
theorem exists_mulAdd_eq_zero_cons {m negInv : UInt64} {ms ws : List UInt64} (w : UInt64)
    (hInverse : m * negInv = -1) (hLength : ws.length = ms.length) :
    ∃ rest carry, Limbs.mulAdd (w * negInv) (w :: ws) (m :: ms) 0 = (0 :: rest, carry) ∧
      rest.length = ms.length ∧
      base * (Limbs.toNat rest + base ^ ms.length * carry.toNat) =
        Limbs.toNat (w :: ws) + (w * negInv).toNat * Limbs.toNat (m :: ms) := by
  have hFullLength : (w :: ws).length = (m :: ms).length := by simpa using hLength
  have hRow := Limbs.toNat_mulAdd (w * negInv) hFullLength 0
  have hRowLength := Limbs.length_mulAdd (w * negInv) (w :: ws) (m :: ms) 0
  rw [hFullLength, Nat.min_self] at hRowLength
  rw [hFullLength] at hRow
  generalize Limbs.mulAdd (w * negInv) (w :: ws) (m :: ms) 0 = step at hRow hRowLength
  obtain ⟨row, carry⟩ := step
  cases row with
  | nil => simp at hRowLength
  | cons low rest =>
      rw [show (0 : UInt64).toNat = 0 from rfl, Nat.add_zero, List.length_cons, pow_succ] at hRow
      have hLow : low.toNat = 0 := by
        have hDigits := base_dvd_of_negInv w hInverse
        have hTotal : low.toNat + base * (Limbs.toNat rest + base ^ ms.length * carry.toNat) =
            (w.toNat + (w * negInv).toNat * m.toNat) +
              base * (Limbs.toNat ws + (w * negInv).toNat * Limbs.toNat ms) := by
          simp only [Limbs.toNat_cons] at hRow
          linear_combination hRow
        have hDivides : base ∣ low.toNat := by
          rw [← Nat.dvd_add_left (Nat.dvd_mul_right base _), hTotal]
          exact Nat.dvd_add hDigits (Nat.dvd_mul_right base _)
        exact Nat.eq_zero_of_dvd_of_lt hDivides (toNat_lt_base low)
      refine ⟨rest, carry, ?_, Nat.succ.inj hRowLength, ?_⟩
      · rw [show low = 0 from UInt64.toNat_inj.mp hLow]
      · rw [Limbs.toNat_cons low, hLow] at hRow
        linear_combination hRow

/-- Dropping the lowest word of the row divides the sum by the base, and nothing is lost. -/
theorem toNat_reduceRow {m negInv : UInt64} {ms ws : List UInt64} (w top : UInt64) (spill : Bool)
    (hInverse : m * negInv = -1) (hLength : ws.length = ms.length) :
    base * (reduceRow (m :: ms) negInv { words := w :: ws, top := top } spill).toNat =
        toNat { words := w :: ws, top := top } + base ^ (ms.length + 2) * spill.toNat +
          (w * negInv).toNat * Limbs.toNat (m :: ms) ∧
      (reduceRow (m :: ms) negInv { words := w :: ws, top := top } spill).words.length =
        ms.length + 1 := by
  obtain ⟨rest, carry, hRow, hRestLength, hDivided⟩ :=
    exists_mulAdd_eq_zero_cons w hInverse hLength
  have hTop := Word.toNat_addCarry top carry false
  rw [Bool.toNat_false, Nat.add_zero] at hTop
  simp only [reduceRow, List.headD_cons, hRow, toNat, List.tail_cons, List.length_append,
    List.length_cons, List.length_nil, Nat.zero_add, hRestLength, hLength, Word.toNat_ofBool_add,
    Limbs.toNat_append, Limbs.toNat_cons _ [], Limbs.toNat_nil, Nat.mul_zero, Nat.add_zero]
  refine ⟨?_, trivial⟩
  rw [pow_succ, pow_succ]
  linear_combination hDivided + base ^ ms.length * base * hTop

theorem step_bound {b m s w a f next : Nat} (hNext : b * next = s + w * a + f * m)
    (hs : s < 2 * m) (hw : w < b) (ha : a < m) (hf : f < b) : next < 2 * m := by
  obtain ⟨b, rfl⟩ := Nat.exists_eq_add_of_lt (Nat.zero_lt_of_lt hw)
  obtain ⟨m, rfl⟩ := Nat.exists_eq_add_of_lt (Nat.zero_lt_of_lt ha)
  have hFirst : w * a ≤ b * m := Nat.mul_le_mul (by omega) (by omega)
  have hSecond : f * (0 + m + 1) ≤ b * (0 + m + 1) := Nat.mul_le_mul_right _ (by omega)
  by_contra hLarge
  have hProduct : (0 + b + 1) * (2 * (0 + m + 1)) ≤ (0 + b + 1) * next :=
    Nat.mul_le_mul_left _ (by omega)
  have hExpanded : (0 + b + 1) * (2 * (0 + m + 1)) = 2 * (b * m) + 2 * b + 2 * m + 2 := by ring
  have hSecond' : b * (0 + m + 1) = b * m + b := by ring
  omega

/-- A sum below twice the modulus has at most one bit above the words of the modulus. -/
theorem top_bound {power low top m : Nat} (hm : m < power) (hSum : low + power * top < 2 * m) :
    top ≤ 1 := by
  by_contra hLarge
  have hPower : power * 2 ≤ power * top := Nat.mul_le_mul_left _ (by omega)
  omega

/-- The sum that a row leaves has a lowest word for the reduction to clear. -/
theorem exists_addRow_eq_cons {m : UInt64} {ms a : List UInt64} {sum : MontgomerySum}
    (word : UInt64) (haLength : a.length = (m :: ms).length)
    (hLength : sum.words.length = (m :: ms).length) :
    ∃ w ws top spill, sum.addRow a word = ({ words := w :: ws, top := top }, spill) ∧
      ws.length = ms.length := by
  obtain ⟨-, hAddedLength⟩ := toNat_addRow word (hLength.trans haLength.symm)
  cases hAdded : sum.addRow a word with
  | mk added spill =>
      obtain ⟨words, top⟩ := added
      rw [hAdded, haLength] at hAddedLength
      cases words with
      | nil => cases hAddedLength
      | cons w ws => exact ⟨w, ws, top, spill, rfl, Nat.succ.inj hAddedLength⟩

/-- One step. The bound on the sum is what makes one subtraction at the end enough. -/
theorem toNat_step {modulus a : List UInt64} {negInv : UInt64} {sum : MontgomerySum}
    (word : UInt64) (hInverse : modulus.headD 0 * negInv = -1)
    (ha : Limbs.toNat a < Limbs.toNat modulus) (haLength : a.length = modulus.length)
    (hLength : sum.words.length = modulus.length) (hSum : sum.toNat < 2 * Limbs.toNat modulus) :
    (∃ q, base * (step modulus negInv a sum word).toNat =
        sum.toNat + word.toNat * Limbs.toNat a + q * Limbs.toNat modulus) ∧
      (step modulus negInv a sum word).words.length = modulus.length ∧
      (step modulus negInv a sum word).toNat < 2 * Limbs.toNat modulus := by
  cases modulus with
  | nil => simp at ha
  | cons m ms =>
      obtain ⟨w, ws, top, spill, hRow, hWords⟩ := exists_addRow_eq_cons word haLength hLength
      obtain ⟨hAdded, -⟩ := toNat_addRow word (hLength.trans haLength.symm)
      obtain ⟨hReduced, hReducedLength⟩ := toNat_reduceRow w top spill hInverse hWords
      rw [hRow, haLength, List.length_cons] at hAdded
      rw [hAdded] at hReduced
      rw [step, hRow]
      exact ⟨⟨_, hReduced⟩, hReducedLength,
        step_bound hReduced hSum (toNat_lt_base _) ha (toNat_lt_base _)⟩

/-- A run over words of the second factor, the lowest first. -/
theorem toNat_foldl_step {modulus a : List UInt64} {negInv : UInt64} (words : List UInt64)
    {sum : MontgomerySum} (hInverse : modulus.headD 0 * negInv = -1)
    (ha : Limbs.toNat a < Limbs.toNat modulus) (haLength : a.length = modulus.length)
    (hLength : sum.words.length = modulus.length) (hSum : sum.toNat < 2 * Limbs.toNat modulus) :
    (∃ q, base ^ words.length * (words.foldl (step modulus negInv a) sum).toNat =
        sum.toNat + Limbs.toNat words * Limbs.toNat a + q * Limbs.toNat modulus) ∧
      (words.foldl (step modulus negInv a) sum).words.length = modulus.length ∧
      (words.foldl (step modulus negInv a) sum).toNat < 2 * Limbs.toNat modulus := by
  induction words generalizing sum with
  | nil => exact ⟨⟨0, by simp⟩, hLength, hSum⟩
  | cons word words ih =>
      obtain ⟨⟨q, hStep⟩, hStepLength, hStepSum⟩ :=
        toNat_step word hInverse ha haLength hLength hSum
      obtain ⟨⟨q', hRest⟩, hRestLength, hRestSum⟩ := ih hStepLength hStepSum
      refine ⟨⟨q + base * q', ?_⟩, hRestLength, hRestSum⟩
      rw [List.foldl_cons, List.length_cons, pow_succ, Limbs.toNat_cons]
      linear_combination hStep + base * hRest

end MontgomerySum

variable {n : Nat}

/-- The subtraction at the end gives the residue of a sum below twice the modulus. -/
theorem toNat_subtractOnce {modulus value : FixedNat n} {top : UInt64}
    (hSum : value.toNat + base ^ n * top.toNat < 2 * modulus.toNat) :
    (if top != 0 || !decide (value < modulus) then value - modulus else value).toNat =
      (value.toNat + base ^ n * top.toNat) % modulus.toNat := by
  have hWidth := modulus.toNat_lt
  have hTop := MontgomerySum.top_bound hWidth hSum
  rcases Nat.le_one_iff_eq_zero_or_eq_one.mp hTop with hZero | hOne
  · obtain rfl : top = 0 := UInt64.toNat_inj.mp hZero
    rw [show ((0 : UInt64) != 0) = false from rfl, Bool.false_or]
    rw [hZero, Nat.mul_zero, Nat.add_zero] at hSum ⊢
    split <;> rename_i hReduce
    · rw [Bool.not_eq_true', decide_eq_false_iff_not, FixedNat.lt_iff, Nat.not_lt] at hReduce
      rw [FixedNat.toNat_sub_of_le hReduce, Nat.mod_eq_sub_mod hReduce, Nat.mod_eq_of_lt (by omega)]
    · have hSmall : value.toNat < modulus.toNat := by simpa [FixedNat.lt_iff] using hReduce
      rw [Nat.mod_eq_of_lt hSmall]
  · obtain rfl : top = 1 := UInt64.toNat_inj.mp hOne
    rw [show ((1 : UInt64) != 0) = true from rfl, Bool.true_or, if_pos rfl]
    rw [hOne, Nat.mul_one] at hSum ⊢
    rw [Nat.mod_eq_sub_mod (by omega), Nat.mod_eq_of_lt (by omega)]
    apply FixedNat.toNat_sub_of_eq_add true
    · omega
    · rw [Bool.toNat_true]
      omega

/-- The Montgomery product is below the modulus, and the radix times it is the product of the
factors up to a multiple of the modulus. -/
theorem toNat_montgomeryProduct {modulus a : FixedNat n} {negInv : UInt64} (b : FixedNat n)
    (hInverse : modulus.limbs.headD 0 * negInv = -1) (ha : a.toNat < modulus.toNat) :
    (montgomeryProduct modulus negInv a b).toNat < modulus.toNat ∧
      base ^ n * (montgomeryProduct modulus negInv a b).toNat ≡
        a.toNat * b.toNat [MOD modulus.toNat] := by
  let start : MontgomerySum := { words := (0 : FixedNat n).limbs, top := 0 }
  have hStart : start.toNat = 0 := MontgomerySum.toNat_zero n
  have hLength : start.words.length = modulus.limbs.length :=
    (0 : FixedNat n).length_limbs.trans modulus.length_limbs.symm
  have hStartSum : start.toNat < 2 * Limbs.toNat modulus.limbs := by
    have hPositive : 0 < Limbs.toNat modulus.limbs := Nat.zero_lt_of_lt ha
    omega
  obtain ⟨⟨q, hRun⟩, hRunLength, hRunSum⟩ := MontgomerySum.toNat_foldl_step b.limbs hInverse ha
    (a.length_limbs.trans modulus.length_limbs.symm) hLength hStartSum
  rw [hStart, Nat.zero_add, b.length_limbs] at hRun
  rw [modulus.length_limbs] at hRunLength
  change base ^ n * _ = b.toNat * a.toNat + q * modulus.toNat at hRun
  change _ < 2 * modulus.toNat at hRunSum
  rw [montgomeryProduct]
  generalize b.limbs.foldl (MontgomerySum.step modulus.limbs negInv a.limbs) start = sum at *
  have hValue := FixedNat.toNat_ofLimbs_of_length hRunLength
  rw [MontgomerySum.toNat, hRunLength, ← hValue] at hRun hRunSum
  change (if sum.top != 0 || !decide (FixedNat.ofLimbs n sum.words < modulus) then
    FixedNat.ofLimbs n sum.words - modulus else FixedNat.ofLimbs n sum.words).toNat < _ ∧ _
  have hResult := toNat_subtractOnce hRunSum
  refine ⟨?_, ?_⟩
  · rw [hResult]
    exact Nat.mod_lt _ (Nat.zero_lt_of_lt ha)
  · rw [hResult]
    calc
      _ ≡ base ^ n * ((FixedNat.ofLimbs n sum.words).toNat + base ^ n * sum.top.toNat)
          [MOD modulus.toNat] := Nat.ModEq.mul_left _ (Nat.mod_modEq _ _)
      _ ≡ a.toNat * b.toNat [MOD modulus.toNat] := by
        rw [hRun, Nat.mul_comm b.toNat, Nat.ModEq, Nat.add_mul_mod_self_right]

end NybergRueppel
