import NybergRueppel.Proofs.Checked.Division
import NybergRueppel.Proofs.Montgomery.Form

/-!
Montgomery arithmetic on the checking machine. The sums of a product are formed in double words and
the running sum is overwritten in place; no sum is too large for its type, whatever the factors are,
and what comes out is the product of the running definition.
-/
namespace NybergRueppel

open Checked Word

/-- The double word `t + a * b + c`, formed step by step. -/
def Word.checkedMulAdd (t a b c : UInt64) : Checked Double := do
  let product ← wide (a.toNat * b.toNat)
  let sum ← wide (t.toNat + product.toNat)
  wide (sum.toNat + c.toNat)

theorem Word.checkedMulAdd_eq (t a b c : UInt64) :
    checkedMulAdd t a b c = .ok (mulAdd t a b c) := by
  have hProduct := toNat_product a b
  have hSum : ((product a b).add t).toNat = t.toNat + (product a b).toNat := by
    have hFits : a.toNat * b.toNat ≤ (2 ^ 64 - 1) * (2 ^ 64 - 1) :=
      Nat.mul_le_mul (Nat.le_pred_of_lt a.toNat_lt) (Nat.le_pred_of_lt b.toNat_lt)
    have ht := t.toNat_lt
    rw [toNat_add, Nat.add_comm]
    rw [hProduct, base_eq]
    omega
  have hAll : (mulAdd t a b c).toNat = ((product a b).add t).toNat + c.toNat := by
    rw [toNat_mulAdd, hSum, hProduct]
  rw [checkedMulAdd, wide_eq_ok hProduct, ok_bind, wide_eq_ok hSum, ok_bind, wide_eq_ok hAll]

/-- The sum of two words as a double word. -/
theorem Word.wide_add (a b : UInt64) :
    wide (a.toNat + b.toNat) =
      .ok { low := (addCarry a b false).1, high := (addCarry a b false).2.toUInt64 } := by
  apply wide_eq_ok
  have hSum := toNat_addCarry a b false
  rw [Bool.toNat_false, Nat.add_zero] at hSum
  rw [Double.toNat, toNat_ofBool, hSum]

theorem Word.addWords_ofBool (a b : Bool) :
    addWords a.toUInt64 b.toUInt64 = .ok (a.toUInt64 + b.toUInt64) := by
  cases a <;> cases b <;> rfl

namespace MontgomerySum

variable {n : Nat}

/-- Adds `a * word` to the sum. The word is what leaves the word on top. -/
def checkedAddRow (a : FixedNat n) (sum : MontgomerySum) (word : UInt64) :
    Checked (MontgomerySum × UInt64) := do
  let (words, carry) ← (List.range n).foldlM (fun (words, carry) j => do
    let next ← checkedMulAdd (← read words j) (← read a.limbs j) word carry
    return (← write words j next.low, next.high)) (sum.words, 0)
  let last ← wide (sum.top.toNat + carry.toNat)
  return ({ words := words, top := last.low }, last.high)

theorem checkedAddRow_eq (a : FixedNat n) {sum : MontgomerySum} (word : UInt64)
    (hLength : sum.words.length = n) :
    sum.checkedAddRow a word =
      .ok ((sum.addRow a.limbs word).1, (sum.addRow a.limbs word).2.toUInt64) := by
  rw [checkedAddRow, Limbs.foldlM_chain hLength a.length_limbs hLength.ge ?_ 0, ok_bind,
    ← Limbs.mulAdd_eq_chain word, List.drop_of_length_le hLength.le, List.append_nil]
  · dsimp only
    rw [wide_add, ok_bind]
    rfl
  · intro j hj done carry hDone
    dsimp only
    rw [read_append_drop hDone (Nat.le_refl j), read_eq_getD (hj.trans_eq hLength.symm) 0, ok_bind,
      a.read_limbs hj, ok_bind, checkedMulAdd_eq, ok_bind]
    rfl

/-- Adds the multiple of the modulus that clears the lowest word, and drops that word: each word of
the row is written one place below its own. -/
def checkedReduceRow (modulus : FixedNat n) (negInv : UInt64) (sum : MontgomerySum)
    (spill : UInt64) : Checked MontgomerySum := do
  let lowest ← read sum.words 0
  let factor := lowest * negInv
  let first ← checkedMulAdd lowest (← read modulus.limbs 0) factor 0
  let (words, carry) ← (List.range' 1 (n - 1)).foldlM (fun (words, carry) j => do
    let next ← checkedMulAdd (← read words j) (← read modulus.limbs j) factor carry
    return (← write words (← difference j 1) next.low, next.high)) (sum.words, first.high)
  let last ← wide (sum.top.toNat + carry.toNat)
  let words ← write words (← difference n 1) last.low
  return { words := words, top := ← addWords spill last.high }

theorem checkedReduceRow_eq (hn : 0 < n) (modulus : FixedNat n) (negInv : UInt64)
    {sum : MontgomerySum} (spill : Bool) (hLength : sum.words.length = n) :
    sum.checkedReduceRow modulus negInv spill.toUInt64 =
      .ok (sum.reduceRow modulus.limbs negInv spill) := by
  obtain ⟨modulus, rfl⟩ := modulus
  obtain ⟨words, top⟩ := sum
  cases modulus with
  | nil => cases hn
  | cons m ms =>
      cases words with
      | nil => cases hLength
      | cons w ws =>
          have hWords : ws.length = (m :: ms).length - 1 := Nat.succ.inj hLength
          have hModulus : ms.length = (m :: ms).length - 1 := rfl
          rw [checkedReduceRow, read_zero, ok_bind, read_zero, ok_bind, checkedMulAdd_eq, ok_bind,
            List.range'_eq_map_range, List.foldlM_map,
            Limbs.foldlM_chain hWords hModulus (hWords.ge.trans (Nat.le_succ _)) ?_, ok_bind,
            ← Limbs.mulAdd_eq_chain (w * negInv)]
          · have hRow := Limbs.length_mulAdd (w * negInv) ws ms (mulAdd w m (w * negInv) 0).high
            rw [hWords, hModulus, Nat.min_self] at hRow
            -- The row moved down by one place, so that one old word is left above it.
            obtain ⟨x, hLast⟩ : ∃ x, (w :: ws).drop ((m :: ms).length - 1) = [x] := by
              apply List.length_eq_one_iff.mp
              rw [List.length_drop, List.length_cons, hWords]
              omega
            dsimp only
            rw [wide_add, ok_bind, difference_eq_ok hn, ok_bind, hLast, write_append hRow, ok_bind,
              addWords_ofBool, ok_bind]
            rfl
          · intro i hi done carry hDone
            dsimp only
            rw [read_append_drop hDone (Nat.le_add_left i 1), Nat.add_comm 1 i, read_succ,
              read_eq_getD (hi.trans_eq hWords.symm) 0, ok_bind, read_succ,
              read_eq_getD (hi.trans_eq hModulus.symm) 0, ok_bind, checkedMulAdd_eq, ok_bind,
              difference_eq_ok (Nat.le_add_left 1 i), ok_bind, Nat.add_sub_cancel]
            rfl

/-- Takes one word of the second factor into the sum. -/
def checkedStep (modulus : FixedNat n) (negInv : UInt64) (a : FixedNat n) (sum : MontgomerySum)
    (word : UInt64) : Checked MontgomerySum := do
  let (sum, spill) ← sum.checkedAddRow a word
  sum.checkedReduceRow modulus negInv spill

theorem checkedStep_eq (hn : 0 < n) (modulus : FixedNat n) (negInv : UInt64) (a : FixedNat n)
    {sum : MontgomerySum} (word : UInt64) (hLength : sum.words.length = n) :
    sum.checkedStep modulus negInv a word = .ok (sum.step modulus.limbs negInv a.limbs word) ∧
      (sum.step modulus.limbs negInv a.limbs word).words.length = n := by
  have hAdded : (sum.addRow a.limbs word).1.words.length = n := by
    rw [addRow, Limbs.length_mulAdd, hLength, a.length_limbs, Nat.min_self]
  constructor
  · rw [checkedStep, checkedAddRow_eq a word hLength, ok_bind]
    exact checkedReduceRow_eq hn modulus negInv _ hAdded
  · simp only [step, reduceRow]
    rw [List.length_append, List.length_tail, Limbs.length_mulAdd, hAdded, modulus.length_limbs,
      List.length_singleton, Nat.min_self]
    omega

end MontgomerySum

variable {n : Nat}

/-- The Montgomery product. -/
def checkedMontgomeryProduct (modulus : FixedNat n) (negInv : UInt64) (a b : FixedNat n) :
    Checked (FixedNat n) := do
  let sum ← b.limbs.foldlM (MontgomerySum.checkedStep modulus negInv a)
    { words := (0 : FixedNat n).limbs, top := 0 }
  let value := FixedNat.ofLimbs n sum.words
  if sum.top != 0 || (← value.checkedCompare modulus) != .lt then value.checkedSub modulus
  else return value

theorem checkedMontgomeryProduct_eq (hn : 0 < n) (modulus : FixedNat n) (negInv : UInt64)
    (a b : FixedNat n) :
    checkedMontgomeryProduct modulus negInv a b = .ok (montgomeryProduct modulus negInv a b) := by
  have hLoop : b.limbs.foldlM (MontgomerySum.checkedStep modulus negInv a)
        { words := (0 : FixedNat n).limbs, top := 0 } =
      .ok (b.limbs.foldl (MontgomerySum.step modulus.limbs negInv a.limbs)
        { words := (0 : FixedNat n).limbs, top := 0 }) :=
    (foldlM_eq_foldl (P := fun sum : MontgomerySum => sum.words.length = n)
      (fun _ hLength word _ => MontgomerySum.checkedStep_eq hn modulus negInv a word hLength)
      (0 : FixedNat n).length_limbs).1
  rw [checkedMontgomeryProduct, hLoop, ok_bind, montgomeryProduct]
  simp only [FixedNat.checkedCompare_eq, ok_bind, FixedNat.bne_lt_eq, FixedNat.checkedSub_eq]
  split <;> rfl

/-- Multiplies the result by the base if the bit of the exponent is set. -/
def checkedMulIf {α : Type} (mul : α → α → Checked α) (bit : Bool) (result base : α) : Checked α :=
  if bit then mul result base else return result

/-- A power by repeated squaring. -/
def checkedPower {α : Type} (mul : α → α → Checked α) (exponent : List UInt64) (one base : α) :
    Checked α := do
  let (result, _) ← (List.range (exponent.length * 64)).foldlM (fun (result, base) i => do
    let word ← shiftDown (← read exponent (i / 64)) (i % 64)
    return (← checkedMulIf mul (word &&& 1 = 1) result base, ← mul base base)) (one, base)
  return result

theorem powBits_eq_foldl {α : Type} (mul : α → α → α) (bits : List Bool) (result base : α) :
    powBits mul bits result base = (bits.foldl
      (fun s bit => (if bit then mul s.1 s.2 else s.1, mul s.2 s.2)) (result, base)).1 := by
  induction bits generalizing result base with
  | nil => rfl
  | cons bit bits ih => rw [powBits, ih, List.foldl_cons]

theorem checkedPower_eq {α : Type} {checkedMul : α → α → Checked α} {mul : α → α → α}
    (hMul : ∀ a b, checkedMul a b = .ok (mul a b)) (exponent : List UInt64) (one base : α) :
    checkedPower checkedMul exponent one base =
      .ok (powBits mul (Limbs.bits exponent) one base) := by
  rw [checkedPower, powBits_eq_foldl, Limbs.bits_eq_map_testBit, List.foldl_map]
  rw [(foldlM_eq_foldl (P := fun _ => True) ?_ trivial).1]
  · rfl
  · rintro ⟨result, base⟩ - i hi
    refine ⟨?_, trivial⟩
    have hPlace : i / 64 < exponent.length := by
      have := List.mem_range.mp hi
      omega
    have hBit : Limbs.testBit exponent i =
        decide ((exponent.getD (i / 64) 0 >>> (i % 64).toUInt64) &&& 1 = 1) := rfl
    dsimp only
    rw [read_eq_getD hPlace 0, ok_bind, shiftDown_eq_ok _ (Nat.mod_lt i (by decide)), ok_bind,
      checkedMulIf, ← hBit, hMul, hMul]
    split <;> rfl

namespace Montgomery

variable (ctx : Montgomery n)

def checkedMul (a b : FixedNat n) : Checked (FixedNat n) :=
  checkedMontgomeryProduct ctx.modulus ctx.negInv a b

theorem checkedMul_eq (a b : FixedNat n) : ctx.checkedMul a b = .ok (ctx.mul a b) :=
  checkedMontgomeryProduct_eq ctx.limbs_pos ctx.modulus ctx.negInv a b

/-- The residue of an integer of any size. -/
def checkedReduce (a : FixedNat n) : Checked (FixedNat n) := do
  if (← a.checkedCompare ctx.modulus) = .lt then return a else a.checkedMod ctx.modulus

theorem checkedReduce_eq (a : FixedNat n) : ctx.checkedReduce a = .ok (ctx.reduce a) := by
  have hModulus := ctx.three_le_modulus
  rw [checkedReduce, FixedNat.checkedCompare_eq, ok_bind,
    FixedNat.checkedMod_eq a (Nat.zero_lt_of_lt hModulus)]
  exact (apply_ite Except.ok _ _ _).symm

def checkedEncode (a : FixedNat n) : Checked (FixedNat n) := do
  ctx.checkedMul (← ctx.checkedReduce a) ctx.rSquared

theorem checkedEncode_eq (a : FixedNat n) : ctx.checkedEncode a = .ok (ctx.encode a) := by
  rw [checkedEncode, checkedReduce_eq, ok_bind, checkedMul_eq, encode]

def checkedDecode (a : FixedNat n) : Checked (FixedNat n) := do
  ctx.checkedMul a (← FixedNat.checkedOfWord n 1)

theorem checkedDecode_eq (a : FixedNat n) : ctx.checkedDecode a = .ok (ctx.decode a) := by
  rw [checkedDecode, FixedNat.checkedOfWord_eq ctx.limbs_pos, ok_bind, checkedMul_eq]
  rfl

/-- A power of a represented residue. -/
def checkedPow (base : FixedNat n) (exponent : List UInt64) : Checked (FixedNat n) :=
  checkedPower ctx.checkedMul exponent ctx.one base

theorem checkedPow_eq (base : FixedNat n) (exponent : List UInt64) :
    ctx.checkedPow base exponent = .ok (ctx.pow base exponent) :=
  checkedPower_eq ctx.checkedMul_eq exponent ctx.one base

/-- The power by the modulus less two. -/
def checkedInverse (a : FixedNat n) : Checked (FixedNat n) := do
  let exponent ← ctx.modulus.checkedSub (← FixedNat.checkedOfWord n 2)
  ctx.checkedPow a exponent.limbs

theorem checkedInverse_eq (a : FixedNat n) : ctx.checkedInverse a = .ok (ctx.inverse a) := by
  rw [checkedInverse, FixedNat.checkedOfWord_eq ctx.limbs_pos, ok_bind, FixedNat.checkedSub_eq,
    ok_bind, checkedPow_eq, inverse]

end Montgomery

end NybergRueppel
