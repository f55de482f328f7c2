import NybergRueppel.Proofs.Checked.Basic
import NybergRueppel.Proofs.Limbs.Bits
import NybergRueppel.Proofs.Limbs.Places

/-!
Limbs taken one after the other. The chains of the running definitions go over both lists at once;
here they are put together from the first limbs, as many as a loop has passed, and the next one.
-/
namespace NybergRueppel

theorem Word.toUInt64_testBit_top (w : UInt64) : (testBit w 63).toUInt64 = w >>> 63 := by
  have hw := w.toNat_lt
  rw [← UInt64.toNat_inj, toNat_ofBool, testBit_eq w (by decide), Nat.toNat_testBit,
    UInt64.toNat_shiftRight, Nat.shiftRight_eq_div_pow, show (63 : UInt64).toNat % 64 = 63 from rfl]
  omega

namespace Limbs

variable {γ : Type}

/-- Goes over two lists from below and hands something on from each pair of limbs to the next. -/
def chain (step : UInt64 → UInt64 → γ → UInt64 × γ) :
    List UInt64 → List UInt64 → γ → List UInt64 × γ
  | x :: xs, y :: ys, carry =>
    let (z, carry) := step x y carry
    let (zs, carry) := chain step xs ys carry
    (z :: zs, carry)
  | _, _, carry => ([], carry)

theorem addCarry_eq_chain (xs ys : List UInt64) (carry : Bool) :
    addCarry xs ys carry = chain Word.addCarry xs ys carry := by
  induction xs generalizing ys carry with
  | nil => rfl
  | cons x xs ih =>
      cases ys with
      | nil => rfl
      | cons y ys => simp only [addCarry, chain, ih]

theorem subBorrow_eq_chain (xs ys : List UInt64) (borrow : Bool) :
    subBorrow xs ys borrow = chain Word.subBorrow xs ys borrow := by
  induction xs generalizing ys borrow with
  | nil => rfl
  | cons x xs ih =>
      cases ys with
      | nil => rfl
      | cons y ys => simp only [subBorrow, chain, ih]

theorem mulAdd_eq_chain (w : UInt64) (ts as : List UInt64) (carry : UInt64) :
    mulAdd w ts as carry = chain (fun t a carry =>
      ((Word.mulAdd t a w carry).low, (Word.mulAdd t a w carry).high)) ts as carry := by
  induction ts generalizing as carry with
  | nil => rfl
  | cons t ts ih =>
      cases as with
      | nil => rfl
      | cons a as => rw [mulAdd, chain, ih]

variable {step : UInt64 → UInt64 → γ → UInt64 × γ} {xs ys : List UInt64}

theorem chain_append (hLength : xs.length = ys.length) (xs' ys' : List UInt64) (carry : γ) :
    chain step (xs ++ xs') (ys ++ ys') carry =
      ((chain step xs ys carry).1 ++ (chain step xs' ys' (chain step xs ys carry).2).1,
        (chain step xs' ys' (chain step xs ys carry).2).2) := by
  induction xs generalizing ys carry with
  | nil =>
      rw [List.eq_nil_of_length_eq_zero hLength.symm]
      rfl
  | cons x xs ih =>
      cases ys with
      | nil => simp at hLength
      | cons y ys => simp only [List.cons_append, chain, ih (Nat.succ.inj hLength)]

theorem length_chain (hLength : xs.length = ys.length) (carry : γ) :
    (chain step xs ys carry).1.length = xs.length := by
  induction xs generalizing ys carry with
  | nil => rfl
  | cons x xs ih =>
      cases ys with
      | nil => simp at hLength
      | cons y ys => rw [chain, List.length_cons, List.length_cons, ih (Nat.succ.inj hLength)]

/-- A loop that writes each limb of a chain to its place. It may read what it has not yet
overwritten. -/
theorem foldlM_chain {out : List UInt64} {count : Nat} (hx : xs.length = count)
    (hy : ys.length = count) (hOut : count ≤ out.length)
    {body : List UInt64 × γ → Nat → Checked (List UInt64 × γ)}
    (hBody : ∀ i < count, ∀ done carry, done.length = i →
      body (done ++ out.drop i, carry) i =
        (·, (step (xs.getD i 0) (ys.getD i 0) carry).2) <$>
          Checked.write (done ++ out.drop i) i (step (xs.getD i 0) (ys.getD i 0) carry).1)
    (carry : γ) :
    (List.range count).foldlM body (out, carry) =
      .ok ((chain step xs ys carry).1 ++ out.drop count, (chain step xs ys carry).2) := by
  let value (i : Nat) : List UInt64 × γ :=
    ((chain step (xs.take i) (ys.take i) carry).1 ++ out.drop i,
      (chain step (xs.take i) (ys.take i) carry).2)
  have hEnd : value count =
      ((chain step xs ys carry).1 ++ out.drop count, (chain step xs ys carry).2) := by
    simp only [value, List.take_of_length_le hx.le, List.take_of_length_le hy.le]
  rw [← hEnd]
  apply Checked.foldlM_range value
  intro i hi
  have hxi : i < xs.length := hi.trans_eq hx.symm
  have hyi : i < ys.length := hi.trans_eq hy.symm
  have hTaken : (xs.take i).length = (ys.take i).length := by
    rw [List.length_take_of_le hxi.le, List.length_take_of_le hyi.le]
  have hDone : (chain step (xs.take i) (ys.take i) carry).1.length = i := by
    rw [length_chain hTaken, List.length_take_of_le hxi.le]
  simp only [value]
  rw [hBody i hi _ _ hDone, List.drop_eq_getElem_cons (hi.trans_le hOut),
    Checked.write_append hDone, Checked.map_ok, List.take_succ_eq_append_getElem hxi,
    List.take_succ_eq_append_getElem hyi, chain_append hTaken]
  simp only [chain, List.getD_eq_getElem?_getD, List.getElem?_eq_getElem hxi,
    List.getElem?_eq_getElem hyi, Option.getD_some, List.append_assoc, List.singleton_append]

/-- The highest limbs decide a comparison, and the limbs below them only if they are equal. -/
theorem compare_concat (hLength : xs.length = ys.length) (x y : UInt64) :
    compare (xs ++ [x]) (ys ++ [y]) = (Ord.compare x y).then (compare xs ys) := by
  induction xs generalizing ys with
  | nil =>
      rw [List.eq_nil_of_length_eq_zero hLength.symm]
      exact Ordering.then_eq.symm
  | cons x' xs ih =>
      cases ys with
      | nil => simp at hLength
      | cons y' ys =>
          rw [List.cons_append, List.cons_append, compare, ih (Nat.succ.inj hLength), compare,
            Ordering.then_assoc]

theorem bitLength_concat (xs : List UInt64) (x : UInt64) :
    bitLength (xs ++ [x]) =
      if x = 0 then bitLength xs else xs.length * 64 + Word.bitLength x := by
  induction xs with
  | nil =>
      rw [List.length_nil, Nat.zero_mul, Nat.zero_add, List.nil_append]
      split <;> rename_i hx
      · rw [hx]
        rfl
      · rfl
  | cons y ys ih =>
      rw [List.cons_append, bitLength, ih, bitLength]
      by_cases hx : x = 0
      · rw [if_pos hx, if_pos hx]
      · have hPositive : 1 ≤ Word.bitLength x := by
          rw [Word.bitLength, if_neg hx]
          exact Nat.le_add_left 1 _
        obtain ⟨k, hk⟩ := Nat.exists_eq_add_of_le' hPositive
        rw [if_neg hx, if_neg hx, hk, List.length_cons, ← Nat.add_assoc]
        simp only
        omega

/-- A limb of the double takes its lowest bit from the limb below. -/
theorem getD_double (xs : List UInt64) (bit : Bool) {i : Nat} (hi : i < xs.length) :
    (double xs bit).1.getD i 0 =
      (xs.getD i 0 <<< 1) ||| (if 0 < i then xs.getD (i - 1) 0 >>> 63 else bit.toUInt64) := by
  induction xs generalizing bit i with
  | nil => cases hi
  | cons x xs ih =>
      cases i with
      | zero => rfl
      | succ i =>
          rw [List.length_cons, Nat.add_lt_add_iff_right] at hi
          rw [double]
          simp only [List.getD_cons_succ, ih _ hi, Nat.zero_lt_succ, if_true, Nat.add_sub_cancel]
          congr 1
          cases i with
          | zero =>
              rw [if_neg (Nat.lt_irrefl 0), List.getD_cons_zero]
              exact Word.toUInt64_testBit_top x
          | succ i => simp only [Nat.zero_lt_succ, if_true, Nat.add_sub_cancel, List.getD_cons_succ]

/-- The highest bit of the highest limb leaves. -/
theorem toUInt64_snd_double {xs : List UInt64} (hLength : 0 < xs.length) (bit : Bool) :
    (double xs bit).2.toUInt64 = xs.getD (xs.length - 1) 0 >>> 63 := by
  induction xs generalizing bit with
  | nil => cases hLength
  | cons x xs ih =>
      cases xs with
      | nil => exact Word.toUInt64_testBit_top x
      | cons y ys =>
          rw [double]
          exact ih (Nat.zero_lt_succ _) (Word.testBit x 63)

/-- Sets the bits of a digit of `width` bits at place `i`, of which a limb has `perLimb`. -/
def checkedPut (width perLimb : Nat) (xs : List UInt64) (i : Nat) (v : UInt64) :
    Checked (List UInt64) := do
  let shifted ← Checked.shiftUp v (i % perLimb * width)
  Checked.update xs (i / perLimb) (· ||| shifted)

/-- A digit above a number is added at its place. -/
theorem exists_checkedPut_eq (width perLimb : Nat) {i : Nat} {v : UInt64} (hPos : 0 < width)
    (hWhole : perLimb * width = 64) (hPlace : i / perLimb < xs.length) (hv : v.toNat < 2 ^ width)
    (hBelow : toNat xs < (2 ^ width) ^ i) :
    ∃ zs, checkedPut width perLimb xs i v = .ok zs ∧ zs.length = xs.length ∧
      toNat zs = toNat xs + (2 ^ width) ^ i * v.toNat ∧ toNat zs < (2 ^ width) ^ (i + 1) := by
  have hPower : 2 ^ (i * width) = (2 ^ width) ^ i := by rw [← pow_mul, Nat.mul_comm]
  have hLimb : i * width / 64 = i / perLimb := by rw [← hWhole, Nat.mul_div_mul_right _ _ hPos]
  have hShift : i * width % 64 = i % perLimb * width := by rw [← hWhole, Nat.mul_mod_mul_right]
  have hPerLimb : 0 < perLimb := Nat.pos_of_ne_zero fun h => by simp [h] at hWhole
  have hFits : i % perLimb * width + width ≤ 64 := by
    rw [← Nat.succ_mul, ← hWhole]
    exact Nat.mul_le_mul_right width (Nat.mod_lt i hPerLimb)
  have hFree : toNat xs / 2 ^ (i * width) % 2 ^ width = 0 := by
    rw [Nat.div_eq_of_lt (hPower ▸ hBelow), Nat.zero_mod]
  have hSet := toNat_set_or (hLimb ▸ hPlace) (hShift ▸ hFits) hv hFree
  rw [hLimb, hShift, hPower] at hSet
  refine ⟨_, ?_, List.length_set, hSet, ?_⟩
  · rw [checkedPut, Checked.shiftUp_eq_ok v (by omega), Checked.ok_bind,
      Checked.update_eq_ok hPlace _ 0]
  · have hDigit : (2 ^ width) ^ i * (v.toNat + 1) ≤ (2 ^ width) ^ i * 2 ^ width :=
      Nat.mul_le_mul_left _ hv
    rw [hSet, pow_succ]
    rw [Nat.mul_succ] at hDigit
    omega

/-- Sets the bits of one digit after the other, the first of them at place `i`. -/
def checkedPutAll (width perLimb : Nat) :
    List UInt64 → Nat → List UInt64 → Checked (List UInt64)
  | xs, _, [] => return xs
  | xs, i, v :: vs => do
    checkedPutAll width perLimb (← checkedPut width perLimb xs i v) (i + 1) vs

/-- Digits for which there is room are added above the number that was there. -/
theorem exists_checkedPutAll_eq (width perLimb : Nat) {i : Nat} {vs : List UInt64}
    (hPos : 0 < width) (hWhole : perLimb * width = 64)
    (hRoom : i + vs.length ≤ perLimb * xs.length) (hDigits : ∀ v ∈ vs, v.toNat < 2 ^ width)
    (hBelow : toNat xs < (2 ^ width) ^ i) :
    ∃ zs, checkedPutAll width perLimb xs i vs = .ok zs ∧ zs.length = xs.length ∧
      toNat zs = toNat xs + (2 ^ width) ^ i * Nat.ofDigits (2 ^ width) (vs.map UInt64.toNat) := by
  induction vs generalizing xs i with
  | nil => exact ⟨xs, rfl, rfl, rfl⟩
  | cons v vs ih =>
      obtain ⟨hv, hAbove⟩ := List.forall_mem_cons.mp hDigits
      rw [List.length_cons] at hRoom
      have hPlace : i / perLimb < xs.length := Nat.div_lt_of_lt_mul (by omega)
      obtain ⟨ys, hPut, hys, hValue, hNext⟩ :=
        exists_checkedPut_eq width perLimb hPos hWhole hPlace hv hBelow
      obtain ⟨zs, hRun, hzs, hSum⟩ := ih (by rw [hys]; omega) hAbove hNext
      refine ⟨zs, ?_, hzs.trans hys, ?_⟩
      · rw [checkedPutAll, hPut, Checked.ok_bind, hRun]
      · rw [hSum, hValue, List.map_cons, Nat.ofDigits_cons, pow_succ]
        ring

end Limbs

end NybergRueppel
