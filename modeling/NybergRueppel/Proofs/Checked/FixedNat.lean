import NybergRueppel.FixedNat.Modular
import NybergRueppel.Proofs.Checked.Limbs
import NybergRueppel.Proofs.FixedNat.Value

/-!
Fixed-width integers on the checking machine: comparison, lengths, bits, sums and differences, limb
by limb. None of them stops, and each has the result of the running definition.
-/
namespace NybergRueppel

open Checked

/-- The zeros above the highest set bit of a word. -/
def Word.leadingZeros (w : UInt64) : Nat :=
  64 - bitLength w

namespace FixedNat

variable {n : Nat}

theorem ofLimbs_limbs (a : FixedNat n) : ofLimbs n a.limbs = a :=
  eq_of_toNat_eq (toNat_ofLimbs_of_length a.length_limbs)

theorem limbs_ofLimbs {xs : List UInt64} (h : xs.length = n) : (ofLimbs n xs).limbs = xs :=
  Limbs.eq_of_toNat_eq ((length_limbs _).trans h.symm) (toNat_ofLimbs_of_length h)

theorem limbs_zero : (0 : FixedNat n).limbs = List.replicate n 0 := by
  apply Limbs.eq_of_toNat_eq
  · rw [(0 : FixedNat n).length_limbs, List.length_replicate]
  · rw [Limbs.toNat_replicate_zero]
    exact toNat_zero

theorem read_limbs (a : FixedNat n) {i : Nat} (hi : i < n) :
    read a.limbs i = .ok (a.limbs.getD i 0) :=
  read_eq_getD (hi.trans_eq a.length_limbs.symm) 0

/-- The limbs below a place and the limb there. -/
theorem take_succ_limbs (a : FixedNat n) {i : Nat} (hi : i < n) :
    a.limbs.take (i + 1) = a.limbs.take i ++ [a.limbs.getD i 0] := by
  have hPlace : i < a.limbs.length := hi.trans_eq a.length_limbs.symm
  rw [List.take_succ_eq_append_getElem hPlace, List.getD_eq_getElem?_getD,
    List.getElem?_eq_getElem hPlace, Option.getD_some]

theorem length_take_limbs (a : FixedNat n) {i : Nat} (hi : i ≤ n) : (a.limbs.take i).length = i :=
  List.length_take_of_le (hi.trans_eq a.length_limbs.symm)

/-- Compares the lowest `count` limbs, the highest of them first. -/
def checkedCompareBelow (a b : FixedNat n) : Nat → Checked Ordering
  | 0 => return .eq
  | i + 1 => do
    match Ord.compare (← read a.limbs i) (← read b.limbs i) with
    | .eq => checkedCompareBelow a b i
    | order => return order

def checkedCompare (a b : FixedNat n) : Checked Ordering :=
  checkedCompareBelow a b n

theorem checkedCompareBelow_eq (a b : FixedNat n) {count : Nat} (hCount : count ≤ n) :
    checkedCompareBelow a b count =
      .ok (Limbs.compare (a.limbs.take count) (b.limbs.take count)) := by
  induction count with
  | zero => rfl
  | succ i ih =>
      have hLength : (a.limbs.take i).length = (b.limbs.take i).length := by
        rw [length_take_limbs a (by omega), length_take_limbs b (by omega)]
      rw [checkedCompareBelow, read_limbs a hCount, read_limbs b hCount, ok_bind, ok_bind,
        take_succ_limbs a hCount, take_succ_limbs b hCount, Limbs.compare_concat hLength]
      cases Ord.compare (a.limbs.getD i 0) (b.limbs.getD i 0) with
      | eq => exact ih (by omega)
      | lt => rfl
      | gt => rfl

theorem bne_lt_eq (a b : FixedNat n) : (compare a b != .lt) = !decide (a < b) := by
  have hLess : a < b ↔ compare a b = .lt := Iff.rfl
  simp only [hLess]
  cases compare a b <;> rfl

theorem checkedCompare_eq (a b : FixedNat n) : a.checkedCompare b = .ok (compare a b) := by
  rw [checkedCompare, checkedCompareBelow_eq a b (Nat.le_refl n),
    List.take_of_length_le a.length_limbs.le, List.take_of_length_le b.length_limbs.le]
  rfl

/-- The bit length of the lowest `count` limbs. -/
def checkedBitLengthBelow (a : FixedNat n) : Nat → Checked Nat
  | 0 => return 0
  | i + 1 => do
    let x ← read a.limbs i
    if x = 0 then checkedBitLengthBelow a i
    else difference ((i + 1) * 64) (Word.leadingZeros x)

def checkedBitLength (a : FixedNat n) : Checked Nat :=
  checkedBitLengthBelow a n

theorem checkedBitLengthBelow_eq (a : FixedNat n) {count : Nat} (hCount : count ≤ n) :
    checkedBitLengthBelow a count = .ok (Limbs.bitLength (a.limbs.take count)) := by
  induction count with
  | zero => rfl
  | succ i ih =>
      rw [checkedBitLengthBelow, read_limbs a hCount, ok_bind, take_succ_limbs a hCount,
        Limbs.bitLength_concat, length_take_limbs a (by omega)]
      generalize a.limbs.getD i 0 = x
      split
      · exact ih (by omega)
      · have hShort := (Word.bitLength_le_iff x 64).mpr x.toNat_lt
        rw [Word.leadingZeros, difference_eq_ok (by omega)]
        congr 1
        omega

theorem checkedBitLength_eq (a : FixedNat n) : a.checkedBitLength = .ok a.bitLength := by
  rw [checkedBitLength, checkedBitLengthBelow_eq a (Nat.le_refl n),
    List.take_of_length_le a.length_limbs.le]
  rfl

def checkedWordLength (a : FixedNat n) : Checked Nat := do
  return wordsForBits (← a.checkedBitLength)

theorem checkedWordLength_eq (a : FixedNat n) : a.checkedWordLength = .ok a.wordLength := by
  rw [checkedWordLength, checkedBitLength_eq]
  rfl

def checkedTestBit (a : FixedNat n) (i : Nat) : Checked Bool := do
  if width n ≤ i then return false
  else return (← shiftDown (← read a.limbs (i / 64)) (i % 64)) &&& 1 = 1

theorem checkedTestBit_eq (a : FixedNat n) (i : Nat) : a.checkedTestBit i = .ok (a.testBit i) := by
  rw [checkedTestBit, testBit, Limbs.testBit]
  split <;> rename_i hWide <;> rw [width] at hWide
  · have hNone : a.limbs[i / 64]? = none := by
      rw [List.getElem?_eq_none_iff, a.length_limbs]
      omega
    rw [List.getD_eq_getElem?_getD, hNone, Option.getD_none,
      Word.testBit_eq 0 (Nat.mod_lt i (by decide)), show (0 : UInt64).toNat = 0 from rfl,
      Nat.zero_testBit]
    rfl
  · rw [read_limbs a (by omega), ok_bind, shiftDown_eq_ok _ (by omega), ok_bind]
    rfl

/-- The `width` bits that start at bit `start`, at most eight of them. -/
def checkedWindow (a : FixedNat n) (start width : Nat) : Checked Nat := do
  demand (decide (width ≤ 8)) .failedAssertion
  (List.range width).foldrM (fun i digit => do
    return 2 * digit + (← a.checkedTestBit (start + i)).toNat) 0

theorem checkedWindow_eq (a : FixedNat n) (start : Nat) {width : Nat} (hWidth : width ≤ 8) :
    a.checkedWindow start width = .ok (a.window start width) := by
  rw [checkedWindow, demand_eq_ok (decide_eq_true hWidth), ok_bind, window]
  refine (foldrM_eq_foldr (P := fun _ => True) ?_ trivial).1
  intro digit _ i _
  rw [checkedTestBit_eq]
  exact ⟨rfl, trivial⟩

/-- One word as an integer. -/
def checkedOfWord (n : Nat) (w : UInt64) : Checked (FixedNat n) := do
  return ofLimbs n (← write (0 : FixedNat n).limbs 0 w)

theorem checkedOfWord_eq (hn : 0 < n) (w : UInt64) : checkedOfWord n w = .ok (ofWord w) := by
  have hZero : (0 : FixedNat n).limbs.length = n := (0 : FixedNat n).length_limbs
  rw [checkedOfWord, write_eq_ok (hn.trans_eq hZero.symm), ok_bind, pure_eq_ok]
  congr 1
  apply eq_of_toNat_eq
  rw [toNat_ofLimbs_of_length (by rw [List.length_set, hZero]), toNat_ofWord hn]
  obtain ⟨m, rfl⟩ := Nat.exists_eq_succ_of_ne_zero hn.ne'
  have hSet : (0 : FixedNat m.succ).limbs.set 0 w = w :: Limbs.fit m [] := rfl
  rw [hSet, Limbs.toNat_cons, Limbs.toNat_fit, Limbs.toNat_nil, Nat.zero_mod, Nat.mul_zero,
    Nat.add_zero]

def checkedIsOne (a : FixedNat n) : Checked Bool := do
  if (← read a.limbs 0) = 1 then return Limbs.isZero (← slice a.limbs 1 n) else return false

theorem checkedIsOne_eq (hn : 0 < n) (a : FixedNat n) : a.checkedIsOne = .ok a.isOne := by
  have hOne : a.isOne = true ↔ a.toNat = 1 := by
    rw [isOne, decide_eq_true_iff, ← toNat_inj, toNat_one hn]
  obtain ⟨limbs, rfl⟩ := a
  cases limbs with
  | nil => cases hn
  | cons x xs =>
      have hWord : x = 1 ↔ x.toNat = 1 := UInt64.toNat_inj.symm
      rw [toNat, Limbs.toNat_cons, Word.base_eq] at hOne
      rw [checkedIsOne, read_zero, ok_bind, slice_length hn, ok_bind]
      split <;> rename_i hx <;> rw [hWord] at hx
      · have hRest : Limbs.isZero xs = isOne ⟨x :: xs, rfl⟩ := by
          rw [Bool.eq_iff_iff, Limbs.isZero_iff, hOne]
          omega
        exact congrArg Except.ok hRest
      · have hOther : isOne ⟨x :: xs, rfl⟩ = false := by
          rw [Bool.eq_false_iff, Ne, hOne]
          omega
        exact congrArg Except.ok hOther.symm

/-- The sum or the difference of all limbs, with what leaves the width. -/
def checkedChain (step : UInt64 → UInt64 → Bool → UInt64 × Bool) (a b : FixedNat n) :
    Checked (FixedNat n × Bool) := do
  let (limbs, carry) ← (List.range n).foldlM (fun (result, carry) i => do
    let (limb, carry) := step (← read a.limbs i) (← read b.limbs i) carry
    return (← write result i limb, carry)) ((0 : FixedNat n).limbs, false)
  return (ofLimbs n limbs, carry)

theorem checkedChain_eq (step : UInt64 → UInt64 → Bool → UInt64 × Bool) (a b : FixedNat n) :
    checkedChain step a b =
      .ok (ofLimbs n (Limbs.chain step a.limbs b.limbs false).1,
        (Limbs.chain step a.limbs b.limbs false).2) := by
  have hZero : (0 : FixedNat n).limbs.length = n := (0 : FixedNat n).length_limbs
  rw [checkedChain, Limbs.foldlM_chain a.length_limbs b.length_limbs hZero.ge ?_ false, ok_bind,
    List.drop_of_length_le hZero.le, List.append_nil]
  · rfl
  · intro i hi done carry _
    rw [read_limbs a hi, read_limbs b hi]
    rfl

def checkedAddCarry (a b : FixedNat n) : Checked (FixedNat n × Bool) :=
  checkedChain Word.addCarry a b

theorem checkedAddCarry_eq (a b : FixedNat n) : a.checkedAddCarry b = .ok (a.addCarry b) := by
  rw [checkedAddCarry, checkedChain_eq, ← Limbs.addCarry_eq_chain]
  exact congrArg Except.ok (Prod.ext (ofLimbs_limbs (a.addCarry b).1) rfl)

def checkedSubBorrow (a b : FixedNat n) : Checked (FixedNat n × Bool) :=
  checkedChain Word.subBorrow a b

theorem checkedSubBorrow_eq (a b : FixedNat n) : a.checkedSubBorrow b = .ok (a.subBorrow b) := by
  rw [checkedSubBorrow, checkedChain_eq, ← Limbs.subBorrow_eq_chain]
  exact congrArg Except.ok (Prod.ext (ofLimbs_limbs (a.subBorrow b).1) rfl)

/-- The wrapping difference. -/
def checkedSub (a b : FixedNat n) : Checked (FixedNat n) := do
  return (← a.checkedSubBorrow b).1

theorem checkedSub_eq (a b : FixedNat n) : a.checkedSub b = .ok (a - b) := by
  rw [checkedSub, checkedSubBorrow_eq]
  rfl

/-- The residue of `a + b` for `a` and `b` below the modulus `m`. -/
def checkedAddMod (m a b : FixedNat n) : Checked (FixedNat n) := do
  let (sum, carry) ← a.checkedAddCarry b
  if carry || (← sum.checkedCompare m) != .lt then sum.checkedSub m else return sum

theorem checkedAddMod_eq (m a b : FixedNat n) : checkedAddMod m a b = .ok (addMod m a b) := by
  rw [checkedAddMod, checkedAddCarry_eq, ok_bind, addMod]
  generalize a.addCarry b = sum
  obtain ⟨sum, carry⟩ := sum
  simp only [checkedCompare_eq, ok_bind, bne_lt_eq, checkedSub_eq]
  split <;> rfl

/-- The residue of `a - b` for `a` and `b` below the modulus `m`. -/
def checkedSubMod (m a b : FixedNat n) : Checked (FixedNat n) := do
  let (difference, borrow) ← a.checkedSubBorrow b
  if borrow then return (← difference.checkedAddCarry m).1 else return difference

theorem checkedSubMod_eq (m a b : FixedNat n) : checkedSubMod m a b = .ok (subMod m a b) := by
  rw [checkedSubMod, checkedSubBorrow_eq, ok_bind, subMod]
  generalize a.subBorrow b = difference
  obtain ⟨difference, borrow⟩ := difference
  simp only [checkedAddCarry_eq, ok_bind]
  split <;> rfl

end FixedNat

end NybergRueppel
